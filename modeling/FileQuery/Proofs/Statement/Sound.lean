import FileQuery.Proofs.Statement.RoundTrip
import FileQuery.Proofs.Statement.Span

/-! # Whatever is read can be printed

A reader gives a property (`Gives`) when everything it reads from the last tokens of a line has the
property, together with the tokens it leaves. Each reader of the language has one such lemma, they are
put together by `Gives.bind`, and so a line is read as a statement only if the fields of the statement
can be printed (`printable_of_read?`). -/
set_option autoImplicit false
namespace FileQuery

open TokenReader

variable {line : List Char} {α β : Type} {ts : List Token}

/-- Whether all that a reader can read from tokens, if they are the last ones of a line, has a property,
together with the tokens that are left. -/
def Gives (line : List Char) (ts : List Token) (p : TokenReader α) (P : α → List Token → Prop) :
    Prop :=
  Ends line ts → ∀ a rest, p.run ts = .ok (a, rest) → Ends line rest ∧ P a rest

theorem gives_pure {a : α} {P : α → List Token → Prop} (own : P a ts) :
    Gives line ts (pure a) P := by
  intro ends b rest ran
  cases ran
  exact ⟨ends, own⟩

theorem gives_throw (e : SyntaxError) (P : α → List Token → Prop) :
    Gives line ts (throw e : TokenReader α) P := by
  intro ends a rest ran
  cases ran

theorem Gives.bind {p : TokenReader α} {f : α → TokenReader β} {P : α → List Token → Prop}
    {Q : β → List Token → Prop} (first : Gives line ts p P)
    (second : ∀ a mid, P a mid → Gives line mid (f a) Q) : Gives line ts (p >>= f) Q := by
  intro ends b rest ran
  rw [StateT.run_bind] at ran
  cases here : p.run ts with
  | error e =>
      rw [here] at ran
      cases ran
  | ok r =>
      rw [here] at ran
      obtain ⟨left, own⟩ := first ends r.1 r.2 here
      exact second r.1 r.2 own left b rest ran

theorem Gives.mono {p : TokenReader α} {P Q : α → List Token → Prop} (gives : Gives line ts p P)
    (weaker : ∀ a rest, P a rest → Q a rest) : Gives line ts p Q := by
  intro ends a rest ran
  obtain ⟨left, own⟩ := gives ends a rest ran
  exact ⟨left, weaker a rest own⟩

theorem Gives.ran {p : TokenReader α} {P : α → List Token → Prop} (gives : Gives line ts p P) :
    Gives line ts p fun a rest => P a rest ∧ p.run ts = .ok (a, rest) := by
  intro ends a rest ran
  obtain ⟨left, own⟩ := gives ends a rest ran
  exact ⟨left, own, ran⟩

theorem Gives.map {p : TokenReader α} {f : α → β} {P : α → List Token → Prop}
    {Q : β → List Token → Prop} (gives : Gives line ts p P)
    (under : ∀ a rest, P a rest → Q (f a) rest) : Gives line ts (f <$> p) Q := by
  rw [map_eq_pure_bind]
  exact gives.bind fun a mid own => gives_pure (under a mid own)

theorem gives_get :
    Gives line ts (get : TokenReader (List Token)) fun us rest => us = ts ∧ rest = ts := by
  intro ends us rest ran
  cases ran
  exact ⟨ends, rfl, rfl⟩

/-- Tokens may be put in place of those that are left if these end with them. -/
theorem gives_set (taken : List Token) {us : List Token} (same : ts = taken ++ us) :
    Gives line ts (set us : TokenReader Unit) fun _ rest => rest = us := by
  intro ends a rest ran
  cases ran
  rw [same] at ends
  exact ⟨ends.drop taken, rfl⟩

/-! ## Keywords and strings -/

theorem gives_accept {names : List String} : Gives line ts (accept names) fun found rest =>
    (∃ t name, ts = t :: rest ∧ t.isKeyword names = true ∧ found = some name) ∨
      found = none ∧ rest = ts := by
  refine gives_get.bind ?_
  rintro us mid ⟨rfl, rfl⟩
  split
  · exact gives_pure (.inr ⟨rfl, rfl⟩)
  · next t behind =>
      split
      · next own =>
          refine (gives_set [t] rfl).bind fun _ rest same => ?_
          exact gives_pure (.inl ⟨t, _, by rw [same], own, rfl⟩)
      · exact gives_pure (.inr ⟨rfl, rfl⟩)

theorem gives_expect {names : List String} :
    Gives line ts (expect names) fun _ rest => ∃ t, ts = t :: rest ∧ t.isKeyword names = true := by
  refine gives_accept.bind ?_
  rintro found mid (⟨t, name, rfl, own, rfl⟩ | ⟨rfl, rfl⟩)
  · exact gives_pure ⟨t, rfl, own⟩
  · intro ends name rest ran
    cases ran

theorem of_expectString {what value : String} {allow : Bool} {rest : List Token}
    (ran : (expectString what allow).run ts = .ok (value, rest)) :
    (∃ t, ts = t :: rest ∧ t.kind = .string) ∧ (value = wildcard → allow = true) ∧
      (value = "" → what = "text") := by
  cases ts with
  | nil => cases ran
  | cons t ts =>
      by_cases string : t.kind = .string
      · by_cases wild : t.value = wildcard ∧ allow = false
        · simp [expectString, string, wild] at ran
          cases ran
        · by_cases empty : t.value = "" ∧ ¬ what = "text"
          · simp [expectString, string, empty] at ran
            cases ran
          · simp [expectString, string, wild, empty] at ran
            cases ran
            exact ⟨⟨t, rfl, string⟩, fun same => by simpa [same] using wild,
              fun same => by simpa [same] using empty⟩
      · simp [expectString, string] at ran
        cases ran

theorem gives_string {what : String} {allow : Bool} :
    Gives line ts (expectString what allow) fun value _ =>
      (value = wildcard → allow = true) ∧ (value = "" → what = "text") := by
  intro ends value rest ran
  obtain ⟨⟨t, rfl, _⟩, own⟩ := of_expectString ran
  exact ⟨ends.tail, own⟩

theorem named_of_string {what value : String} (other : what ≠ "text")
    (own : (value = wildcard → false = true) ∧ (value = "" → what = "text")) : Named value :=
  ⟨fun empty => other (own.2 empty), fun wild => absurd (own.1 wild) (by decide)⟩

theorem gives_name {what : String} (other : what ≠ "text") :
    Gives line ts (expectString what) fun value _ => Named value :=
  gives_string.mono fun _ _ own => named_of_string other own

theorem gives_wild {what : String} (other : what ≠ "text") :
    Gives line ts (expectString what true) fun value _ => value ≠ "" :=
  gives_string.mono fun _ _ own empty => other (own.2 empty)

theorem gives_text : Gives line ts (expectString "text") fun value _ => value ≠ wildcard :=
  gives_string.mono fun _ _ own wild => absurd (own.1 wild) (by decide)

theorem gives_kind : Gives line ts expectKind fun _ _ => True := by
  refine gives_expect.bind fun word mid _ => ?_
  split
  · exact gives_pure trivial
  · exact gives_pure trivial

theorem gives_end : Gives line ts expectEnd fun _ _ => True := by
  refine gives_get.bind fun us mid _ => ?_
  split
  · exact gives_pure trivial
  · exact gives_throw _ _

/-! ## Clauses -/

theorem gives_optional {name : String} {p : TokenReader α} {P : List Token → α → List Token → Prop}
    (inner : ∀ mid, Gives line mid p (P mid)) : Gives line ts (optional name p) fun found rest =>
      (∃ t mid a, ts = t :: mid ∧ t.isKeyword [name] = true ∧ found = some a ∧ P mid a rest) ∨
        found = none ∧ rest = ts := by
  refine gives_accept.bind ?_
  rintro word mid (⟨t, name, rfl, own, rfl⟩ | ⟨rfl, rfl⟩)
  · exact (inner mid).map fun a rest found => .inl ⟨t, mid, a, rfl, own, rfl, found⟩
  · exact gives_pure (.inr ⟨rfl, rfl⟩)

theorem gives_condition (terminators : List String) :
    Gives line ts (conditionText line terminators) fun text rest =>
      ConditionText terminators (rest ≠ []) text :=
  fun ends _ _ ran => of_conditionText ends ran

theorem gives_source (terminators : List String) :
    Gives line ts (source line terminators) fun s rest => s.Printable terminators (rest ≠ []) := by
  rw [source_eq]
  have folder : Gives line ts (optional "FROM" (expectString "source folder")) fun found _ =>
      ∀ f ∈ found, Named f := by
    refine (gives_optional fun _ => gives_name (by decide)).mono ?_
    rintro found rest (⟨_, _, f, _, _, rfl, named⟩ | ⟨rfl, _⟩)
    · simpa using named
    · simp
  refine folder.bind fun found mid named => ?_
  refine (gives_optional fun _ => gives_condition terminators).bind ?_
  rintro clause rest (⟨_, _, c, _, _, rfl, text⟩ | ⟨rfl, _⟩)
  · exact gives_pure ⟨named, by simpa using text⟩
  · exact gives_pure ⟨named, by simp⟩

theorem Ends.bare {t : Token} (ends : Ends line (t :: ts)) (word : t.kind = .word) :
    Token.Bare t.value.toList := by
  obtain ⟨before, scans⟩ := ends
  exact scans.bare_of_mem t (by simp) word

theorem ConditionText.mono {terminators : List String} {p q : Prop} {text : String}
    (valid : ConditionText terminators p text) (weaker : q → p) : ConditionText terminators q text := by
  obtain ⟨trimmed, us, read, some, unended, level⟩ := valid
  exact ⟨trimmed, us, read, some, unended, fun follows => level (weaker follows)⟩

theorem Source.Printable.mono {terminators : List String} {p q : Prop} {s : Source}
    (valid : s.Printable terminators p) (weaker : q → p) : s.Printable terminators q :=
  ⟨valid.folder, fun c member => (valid.clause c member).mono weaker⟩

theorem gives_directed (field : String) :
    Gives line ts (directed field) fun spec _ => ∃ d, spec = some ⟨field, d⟩ := by
  refine gives_accept.bind fun word mid _ => ?_
  split
  · exact gives_pure ⟨_, rfl⟩
  · exact gives_pure ⟨_, rfl⟩

theorem gives_field {p : String → TokenReader (Option SortSpec)}
    (inner : ∀ field mid, Gives line mid (p field) fun spec _ => ∃ d, spec = some ⟨field, d⟩) :
    Gives line ts (do
      match ← get with
      | t :: ts =>
        if (decide (t.kind = .word) && !t.isKeyword ["INTO"]) = true then do
          set ts
          p t.value
        else throw .noSortField
      | [] => throw .noSortField) fun spec _ => ∀ o ∈ spec, o.Printable := by
  refine gives_get.bind ?_
  rintro us mid ⟨rfl, rfl⟩
  split
  · next t behind =>
      split
      · next word =>
          rw [Bool.and_eq_true, decide_eq_true_eq, Bool.not_eq_true'] at word
          intro ends
          have bare := ends.bare word.1
          have read : Gives line (t :: behind) (set behind >>= fun _ => p t.value) fun spec _ =>
              ∃ d, spec = some ⟨t.value, d⟩ :=
            (gives_set [t] rfl).bind fun _ mid _ => inner t.value mid
          refine read.mono ?_ ends
          rintro spec rest ⟨d, rfl⟩ o member
          obtain rfl := Option.some.inj member
          rw [isKeyword_of_word word.1] at word
          exact ⟨bare, by simpa [Token.Spells] using word.2⟩
      · exact gives_throw _ _
  · exact gives_throw _ _

theorem gives_order : Gives line ts order fun spec rest =>
    (ts ≠ [] ∧ ∀ o ∈ spec, o.Printable) ∨ spec = none ∧ rest = ts := by
  refine gives_accept.bind ?_
  rintro word mid (⟨t, name, rfl, _, rfl⟩ | ⟨rfl, rfl⟩)
  · refine gives_expect.bind fun _ _ _ => (gives_field (p := directed) ?_).mono ?_
    · exact fun field _ => gives_directed field
    · exact fun spec rest printable => .inl ⟨by simp, printable⟩
  · exact gives_pure (.inr ⟨rfl, rfl⟩)

theorem sourceFiles_spec {names : List String} {rest : List Token}
    (read : sourceFiles ts = .ok (names, rest)) :
    (∃ taken, ts = taken ++ rest) ∧ ∀ n ∈ names, Named n := by
  induction ts generalizing names rest with
  | nil =>
      cases read
      exact ⟨⟨[], rfl⟩, by simp⟩
  | cons t ts ih =>
      rw [sourceFiles] at read
      split at read
      · cases first : (expectString "source file").run [t] with
        | error e => simp [first, bind, Except.bind] at read
        | ok one =>
            cases more : sourceFiles ts with
            | error e => simp [first, more, bind, Except.bind] at read
            | ok others =>
                simp only [first, more, bind, Except.bind] at read
                obtain ⟨rfl, rfl⟩ := Prod.mk.inj (Except.ok.inj read)
                obtain ⟨⟨taken, same⟩, named⟩ := ih more
                have here := named_of_string (by decide) (of_expectString first).2
                exact ⟨⟨t :: taken, by rw [List.cons_append, ← same]⟩,
                  List.forall_mem_cons.mpr ⟨here, named⟩⟩
      · cases read
        exact ⟨⟨[], rfl⟩, by simp⟩

theorem gives_sources : Gives line ts sourceNames fun names _ => ∀ n ∈ names, Named n := by
  intro ends names rest ran
  cases read : sourceFiles ts with
  | error e =>
      simp [sourceNames, read] at ran
  | ok found =>
      obtain ⟨⟨taken, rfl⟩, named⟩ := sourceFiles_spec read
      simp [sourceNames, read] at ran
      cases ran
      exact ⟨ends.drop taken, named⟩

namespace Statement

/-! ## Statements -/

/-- Whether a reader reads only statements whose fields can be printed. -/
def Sound (line : List Char) (reader : TokenReader Statement) : Prop :=
  ∀ ts, Gives line ts reader fun s _ => s.Printable

theorem sound_load : Sound line readLoad := by
  intro ts
  refine (gives_name (by decide)).bind fun path mid named => ?_
  split
  · next script => exact gives_pure ⟨named, script⟩
  · exact gives_throw _ _

theorem sound_create : Sound line readCreate := by
  intro ts
  refine gives_kind.bind fun kind mid _ => ?_
  refine (gives_name (by cases kind <;> decide)).bind fun name last named => ?_
  exact gives_pure named

theorem sound_read : Sound line readRead := by
  intro ts
  refine gives_expect.bind fun _ mid _ => (gives_wild (by decide)).bind fun name last filled => ?_
  exact gives_pure filled

theorem sound_edit : Sound line readEdit := by
  intro ts
  refine gives_expect.bind fun _ mid _ => (gives_name (by decide)).bind fun name last named => ?_
  exact gives_pure named

theorem sound_write : Sound line readWrite := by
  intro ts
  refine gives_expect.bind fun _ mid _ => (gives_name (by decide)).bind fun name _ named => ?_
  refine gives_expect.bind fun _ mid _ => gives_text.bind fun content last plain => ?_
  exact gives_pure ⟨named, plain⟩

theorem sound_append : Sound line readAppend := by
  intro ts
  refine gives_expect.bind fun _ mid _ => (gives_name (by decide)).bind fun name _ named => ?_
  refine gives_expect.bind fun _ mid _ => gives_text.bind fun content last plain => ?_
  exact gives_pure ⟨named, plain⟩

theorem sound_delete : Sound line (readDelete line) := by
  intro ts
  have all (kind : Kind) (mid : List Token) : Gives line mid (do
      return Statement.deleteAll kind (← source line [])) fun s _ => s.Printable :=
    (gives_source []).bind fun source last valid => gives_pure (valid.mono False.elim)
  refine gives_expect.bind fun word mid _ => ?_
  split
  · exact (gives_wild (by decide)).bind fun name last filled => gives_pure filled
  · exact (gives_wild (by decide)).bind fun name last filled => gives_pure filled
  · exact all .file mid
  · exact all .folder mid

theorem sound_list : Sound line readList := by
  intro ts
  refine gives_expect.bind fun word mid _ => ?_
  split <;> exact gives_pure trivial

theorem sound_count : Sound line readCount := by
  intro ts
  refine gives_expect.bind fun word mid _ => ?_
  split <;> exact gives_pure trivial

theorem sound_transferOne (mode : Transfer) (kind : Kind) :
    Sound line (readTransferOne mode kind) := by
  intro ts
  refine (gives_wild (by cases kind <;> decide)).bind fun name mid filled => ?_
  refine gives_expect.bind fun _ mid _ => (gives_name (by decide)).bind fun target last named => ?_
  exact gives_pure ⟨filled, named⟩

/-- The target stands behind the condition, so the parentheses in it are closed. -/
theorem sound_transferAll (mode : Transfer) (kind : Kind) :
    Sound line (readTransferAll line mode kind) := by
  intro ts
  refine (gives_source ["TO"]).bind fun source mid valid => ?_
  refine gives_expect.bind ?_
  rintro _ behind ⟨t, rfl, _⟩
  refine (gives_name (by decide)).bind fun target last named => ?_
  exact gives_pure ⟨named, valid.mono fun _ => by simp⟩

theorem sound_transfer (mode : Transfer) : Sound line (readTransfer line mode) := by
  intro ts
  refine gives_expect.bind fun word mid _ => ?_
  split
  · exact sound_transferOne mode .file mid
  · exact sound_transferOne mode .folder mid
  · exact sound_transferAll mode .file mid
  · exact sound_transferAll mode .folder mid

theorem sound_rename : Sound line readRename := by
  intro ts
  refine gives_kind.bind fun kind mid _ => ?_
  refine (gives_name (by cases kind <;> decide)).bind fun old mid first => ?_
  refine gives_expect.bind fun _ mid _ => (gives_name (by decide)).bind fun new last second => ?_
  exact gives_pure ⟨first, second⟩

/-- Where an order or an output file stands behind the condition, the parentheses in it are closed. -/
theorem sound_select : Sound line (readSelect line) := by
  intro ts
  rw [readSelect_eq]
  refine gives_expect.bind fun word mid _ => ?_
  refine (gives_source ["ORDER", "INTO"]).bind fun source behind valid => ?_
  refine gives_order.bind fun spec left ordered => ?_
  refine (gives_optional fun _ => gives_name (by decide)).bind fun into last written => ?_
  have follows : spec ≠ none ∨ into ≠ none → behind ≠ [] := by
    rcases ordered with ⟨filled, _⟩ | ⟨rfl, rfl⟩
    · exact fun _ => filled
    · rcases written with ⟨_, _, _, rfl, _⟩ | ⟨rfl, _⟩
      · simp
      · simp
  have sorted : ∀ o ∈ spec, o.Printable := by
    rcases ordered with ⟨_, printable⟩ | ⟨rfl, _⟩
    · exact printable
    · simp
  have named : ∀ f ∈ into, Named f := by
    rcases written with ⟨_, _, f, _, _, rfl, named⟩ | ⟨rfl, _⟩
    · simpa using named
    · simp
  exact gives_pure ⟨valid.mono follows, sorted, named⟩

theorem sound_merge : Sound line readMerge := by
  intro ts
  rw [readMerge_eq]
  refine gives_sources.bind fun sources mid named => ?_
  split
  · exact gives_throw _ _
  · next some =>
      refine gives_expect.bind fun _ mid _ => (gives_name (by decide)).bind fun file last target => ?_
      exact gives_pure ⟨by simpa using some, named, target⟩

theorem sound_chmod : Sound line readChmod := by
  intro ts
  refine (gives_name (by decide)).bind fun name mid named => ?_
  refine gives_expect.bind fun _ mid _ => (gives_name (by decide)).bind fun mode last filled => ?_
  split
  · next octal => exact gives_pure ⟨named, filled, octal⟩
  · exact gives_throw _ _

theorem sound_reader {verb : String} {reader : TokenReader Statement}
    (found : readerOf line verb = some reader) : Sound line reader := by
  unfold readerOf at found
  split at found
  all_goals try obtain rfl := Option.some.inj found
  · exact sound_load
  · exact sound_create
  · exact sound_read
  · exact sound_edit
  · exact sound_edit
  · exact sound_write
  · exact sound_append
  · exact sound_delete
  · exact fun ts => (gives_name (by decide)).map fun folder rest named => named
  · exact fun ts => gives_pure trivial
  · exact sound_list
  · exact sound_transfer .move
  · exact sound_transfer .copy
  · exact sound_rename
  · exact sound_count
  · exact sound_select
  · exact sound_merge
  · exact sound_chmod
  · cases found

theorem sound_readAll : Gives line ts (readAll line) fun s _ => s.Printable := by
  refine gives_get.bind ?_
  rintro us mid ⟨rfl, rfl⟩
  split
  · exact gives_throw _ _
  · next t behind =>
      split
      · exact (gives_throw _ fun _ _ => False).bind fun _ _ never => never.elim
      · simp only
        split
        · exact gives_throw _ _
        · next reader found =>
            refine (gives_set [t] rfl).bind fun _ rest _ => ?_
            refine (sound_reader found rest).bind fun s left printable => ?_
            exact gives_end.bind fun _ last _ => gives_pure printable

theorem of_read? {s : Statement} (read : read? line = .ok s) :
    ∃ ts rest, tokenize line = .ok ts ∧ (readAll line).run ts = .ok (s, rest) := by
  rw [read?] at read
  cases tokens : tokenize line with
  | error e => simp [tokens, bind, Except.bind] at read
  | ok ts =>
      cases ran : (readAll line).run ts with
      | error e => simp [tokens, ran, bind, Except.bind] at read
      | ok found =>
          obtain ⟨t, rest⟩ := found
          simp only [tokens, ran, bind, Except.bind] at read
          obtain rfl := Except.ok.inj read
          exact ⟨ts, rest, rfl, ran⟩

theorem printable_of_read? {s : Statement} (read : read? line = .ok s) : s.Printable := by
  obtain ⟨ts, rest, tokens, ran⟩ := of_read? read
  have ends : Ends line ts := ⟨[], Token.tokenize_eq_ok_iff.mp tokens⟩
  exact (sound_readAll ends s rest ran).2

end Statement

end FileQuery
