import FileQuery.Proofs.Json.Spelling
import FileQuery.Proofs.Statement.Token
import FileQuery.Text.Escape

/-! Texts that are spelled with escapes between the quotes of a statement. Three readers meet there:
the lexer, which looks for the closing quote, the guard of quotes, which finds none to escape, and
the reader of escapes. What spells a text passes the first two as it is and is decoded to that text. -/
set_option autoImplicit false
namespace FileQuery

open Token (Enclosed)

namespace Json

theorem UnitDigits.enclosed {n : Nat} {digits e : List Char} (unit : UnitDigits n digits)
    (rest : Enclosed '"' e) : Enclosed '"' (digits ++ e) := by
  have plain {c : Char} (member : c ∈ digits) : c ≠ '"' ∧ c ≠ '\\' := by
    obtain ⟨m, value⟩ := unit.value_of_mem member
    constructor <;>
      · rintro rfl
        cases value
  generalize digits = cs at plain
  induction cs with
  | nil => exact rest
  | cons c cs ih =>
      obtain ⟨quote, slash⟩ := plain List.mem_cons_self
      exact .plain quote slash (ih fun member => plain (List.mem_cons_of_mem c member))

theorem Spelling.enclosed {c : Char} {w e : List Char} (spelling : Spelling c w)
    (rest : Enclosed '"' e) : Enclosed '"' (w ++ e) := by
  cases spelling with
  | plain quote slash => exact .plain quote slash rest
  | letter stands => exact .escaped rest
  | unit unit => exact .escaped (unit.enclosed rest)
  | @pair high low beyond first second =>
      have same : ('\\' :: 'u' :: (high ++ '\\' :: 'u' :: low)) ++ e =
          '\\' :: 'u' :: (high ++ '\\' :: 'u' :: (low ++ e)) := by simp
      rw [same]
      exact .escaped (first.enclosed (.escaped (second.enclosed rest)))

theorem Spells.enclosed {s e : List Char} (spells : Spells s e) : Enclosed '"' e := by
  induction spells with
  | nil => exact .nil
  | cons first _ ih => exact first.enclosed ih

end Json

namespace Text

/-- Between double quotes every quote has a backslash before it, so none needs to be guarded. -/
theorem guardQuotes_of_enclosed {e : List Char} (enclosed : Enclosed '"' e) :
    ∀ afterBackslash, guardQuotes afterBackslash e = e := by
  induction enclosed with
  | nil => exact fun _ => rfl
  | @plain c r other bare rest ih =>
      intro afterBackslash
      rw [guardQuotes, if_neg (by simp [other]), ih]
  | @escaped d r rest ih =>
      intro afterBackslash
      rw [guardQuotes, if_neg (by simp), beq_self_eq_true, guardQuotes, if_neg (by simp), ih]

theorem decodeEscapes_of_spells {s e : List Char} (spells : Json.Spells s e) :
    decodeEscapes e = .ok (s.map Char.toNat) := by
  have literal : (literalOf e).tail = e ++ ['"'] := by
    rw [literalOf, guardQuotes_of_enclosed spells.enclosed]
    rfl
  obtain ⟨stop, read⟩ := Json.scanString_spells spells 0 [] 1
  rw [decodeEscapes, literal, read]
  rfl

end Text

end FileQuery
