import FileQuery.Proofs.Statement.Grammar

/-! # Readers and the symbols they take

`Reads` says which tokens of a line the symbols of a statement become. A reader takes symbols off the
front (`Takes`) when it reads a value from any tokens of theirs and leaves the tokens of the symbols
behind them; each reader of the language has one such lemma, and they are put together by
`Takes.bind`. -/
set_option autoImplicit false
namespace FileQuery

open TokenReader

theorem TokenReader.slice_append {before a r : List Char} :
    slice (before ++ (a ++ r)) before.length (before.length + a.length) = a := by
  rw [slice, ← List.append_assoc, ← List.length_append, List.take_left', List.drop_left']
  all_goals rfl

inductive Reads (line : List Char) : List Symbol → List Token → Prop where
  | nil : Reads line [] []
  | keyword {t : Token} {xs : List Symbol} {ts : List Token} (word : t.kind = .word)
      (rest : Reads line xs ts) :
      Reads line (.keyword (String.ofList (Text.upper t.value.toList)) :: xs) (t :: ts)
  | quoted {t : Token} {xs : List Symbol} {ts : List Token} (string : t.kind = .string)
      (rest : Reads line xs ts) : Reads line (.quoted t.value :: xs) (t :: ts)
  | bare {t : Token} {xs : List Symbol} {ts : List Token} (word : t.kind = .word)
      (rest : Reads line xs ts) : Reads line (.bare t.value :: xs) (t :: ts)
  | condition {text : String} {offset : Nat} {us : List Token} {xs : List Symbol} {ts : List Token}
      (scans : Token.Scans 0 text.toList us)
      (placed : slice line offset (offset + text.toList.length) = text.toList)
      (rest : Reads line xs ts) :
      Reads line (.condition text :: xs) (us.map (Token.shift offset) ++ ts)

variable {line : List Char} {α β : Type} {xs ys zs : List Symbol}

/-- Whether a reader takes symbols off the front, and reads a value from them. -/
def Takes (line : List Char) (p : TokenReader α) (xs : List Symbol) (a : α) (ys : List Symbol) :
    Prop :=
  ∀ ts, Reads line xs ts → ∃ rest, Reads line ys rest ∧ p.run ts = .ok (a, rest)

theorem takes_pure (a : α) : Takes line (pure a) xs a xs :=
  fun ts reads => ⟨ts, reads, rfl⟩

theorem Takes.bind {p : TokenReader α} {f : α → TokenReader β} {a : α} {b : β}
    (first : Takes line p xs a ys) (second : Takes line (f a) ys b zs) :
    Takes line (p >>= f) xs b zs := by
  intro ts reads
  obtain ⟨rest, left, ran⟩ := first ts reads
  obtain ⟨last, right, done⟩ := second rest left
  refine ⟨last, right, ?_⟩
  rw [StateT.run_bind, ran]
  exact done

theorem Takes.map {p : TokenReader α} {a : α} (f : α → β) (first : Takes line p xs a ys) :
    Takes line (f <$> p) xs (f a) ys := by
  rw [map_eq_pure_bind]
  exact first.bind (takes_pure (f a))

/-! ## Keywords -/

theorem isKeyword_of_word {t : Token} {names : List String} (word : t.kind = .word) :
    t.isKeyword names = names.contains (String.ofList (Text.upper t.value.toList)) := by
  simp [Token.isKeyword, word]

theorem isKeyword_of_string {t : Token} {names : List String} (string : t.kind = .string) :
    t.isKeyword names = false := by
  simp [Token.isKeyword, string]

theorem takes_accept {names : List String} {name : String} (member : name ∈ names) :
    Takes line (accept names) (.keyword name :: xs) (some name) xs := by
  intro ts reads
  cases reads with
  | @keyword t _ ts word rest =>
      have found : t.isKeyword names = true := by
        rw [isKeyword_of_word word]
        simpa using member
      refine ⟨ts, rest, ?_⟩
      simp [accept, found]
      rfl

/-- Whether symbols begin with none of the given keywords. -/
def Misses (names : List String) (xs : List Symbol) : Prop :=
  xs = [] ∨ (∃ name rest, xs = .keyword name :: rest ∧ name ∉ names) ∨
    ∃ value rest, xs = .quoted value :: rest

theorem takes_accept_none {names : List String} (misses : Misses names xs) :
    Takes line (accept names) xs none xs := by
  intro ts reads
  refine ⟨ts, reads, ?_⟩
  rcases misses with rfl | ⟨name, rest, rfl, other⟩ | ⟨value, rest, rfl⟩
  · cases reads
    rfl
  · cases reads with
    | @keyword t _ ts word rest =>
        have found : t.isKeyword names = false := by
          rw [isKeyword_of_word word]
          simpa using other
        simp [accept, found]
        rfl
  · cases reads with
    | @quoted t _ ts string rest =>
        simp [accept, isKeyword_of_string string]
        rfl

theorem takes_expect {names : List String} {name : String} (member : name ∈ names) :
    Takes line (expect names) (.keyword name :: xs) name xs :=
  (takes_accept member).bind (takes_pure name)

theorem takes_expectKind (kind : Kind) :
    Takes line expectKind (.keyword kind.title :: xs) kind xs := by
  cases kind with
  | file => exact (takes_expect (by simp [Kind.title])).bind (takes_pure Kind.file)
  | folder => exact (takes_expect (by simp [Kind.title])).bind (takes_pure Kind.folder)

/-! ## Strings -/

theorem takes_expectString {what value : String} {allow : Bool}
    (wild : value ≠ wildcard ∨ allow = true) (filled : value ≠ "" ∨ what = "text") :
    Takes line (expectString what allow) (.quoted value :: xs) value xs := by
  intro ts reads
  cases reads with
  | @quoted t _ ts string rest =>
      refine ⟨ts, rest, ?_⟩
      have allowed : ¬ (t.value = wildcard ∧ allow = false) := by
        rintro ⟨same, no⟩
        rcases wild with h | h
        · exact h same
        · rw [h] at no
          exact absurd no (by decide)
      have nonempty : ¬ (t.value = "" ∧ ¬ what = "text") := by
        rintro ⟨same, other⟩
        rcases filled with h | h
        · exact h same
        · exact other h
      simp [expectString, string, allowed, nonempty]
      rfl

theorem takes_name {what value : String} (named : Named value) :
    Takes line (expectString what) (.quoted value :: xs) value xs :=
  takes_expectString (.inl named.2) (.inl named.1)

theorem takes_expectEnd : Takes line expectEnd [] () [] := by
  intro ts reads
  cases reads
  exact ⟨[], .nil, rfl⟩

theorem sourceFiles_quoted {names : List String} {name : String}
    (named : ∀ n ∈ names, Named n) {ts : List Token}
    (reads : Reads line (names.map .quoted ++ .keyword name :: xs) ts) :
    ∃ rest, Reads line (.keyword name :: xs) rest ∧ sourceFiles ts = .ok (names, rest) := by
  induction names generalizing ts with
  | nil =>
      refine ⟨ts, reads, ?_⟩
      cases reads with
      | keyword word rest =>
          rw [sourceFiles, if_neg (by simp [word])]
  | cons n names ih =>
      cases reads with
      | @quoted t _ ts string rest =>
          obtain ⟨left, right, ran⟩ := ih (fun m member => named m (List.mem_cons_of_mem _ member)) rest
          refine ⟨left, right, ?_⟩
          have single : Reads line [.quoted t.value] [t] := .quoted string .nil
          have taken : Takes line (expectString "source file") [.quoted t.value] t.value [] :=
            takes_name (named t.value (by simp))
          obtain ⟨_, _, one⟩ := taken [t] single
          rw [sourceFiles, if_pos string, one, ran]
          rfl

def sourceNames : TokenReader (List String) := do
  let (sources, rest) ← sourceFiles (← get)
  set rest
  return sources

theorem takes_sourceNames {names : List String} {name : String} (named : ∀ n ∈ names, Named n) :
    Takes line sourceNames (names.map .quoted ++ .keyword name :: xs) names
      (.keyword name :: xs) := by
  intro ts reads
  obtain ⟨rest, behind, ran⟩ := sourceFiles_quoted named reads
  refine ⟨rest, behind, ?_⟩
  simp [sourceNames, ran]

/-! ## Conditions -/

theorem endsCondition_shift (terminators : List String) (offset : Nat) (t : Token)
    (behind : List Token) {rest : List Token} (other : rest.head?.map (·.kind) ≠ some .string) :
    endsCondition terminators (t.shift offset) (behind.map (Token.shift offset) ++ rest) =
      endsCondition terminators t behind := by
  have same : ∀ names, (t.shift offset).isKeyword names = t.isKeyword names := fun _ => rfl
  cases behind with
  | nil =>
      have left : (rest.head?.map (·.kind) == some TokenKind.string) = false := by simpa using other
      simp only [endsCondition, same, List.map_nil, List.nil_append, left]
      rfl
  | cons u us => rfl

theorem cutCondition_append {terminators : List String} {depth : Nat} {own rest : List Token}
    (free : ∀ before t behind, own = before ++ t :: behind → Token.levelAfter depth before = 0 →
      endsCondition terminators t (behind ++ rest) = false)
    (stops : rest = [] ∨ Token.levelAfter depth own = 0 ∧ ∃ t ts, rest = t :: ts ∧
      t.kind = .word ∧ endsCondition terminators t ts = true) :
    cutCondition terminators depth (own ++ rest) = (own, rest) := by
  induction own generalizing depth with
  | nil =>
      rcases stops with rfl | ⟨level, t, ts, rfl, word, ends⟩
      · rfl
      · have zero : depth = 0 := level
        simp [cutCondition, word, zero, ends]
  | cons t own ih =>
      have step : ∀ d, Token.levelAfter depth [t] = d → cutCondition terminators d (own ++ rest) =
          (own, rest) := by
        rintro d rfl
        refine ih ?_ ?_
        · intro before u behind same level
          refine free (t :: before) u behind (by rw [same]; rfl) ?_
          rw [← List.singleton_append, Token.levelAfter_append]
          exact level
        · rcases stops with none | ⟨level, found⟩
          · exact .inl none
          · refine .inr ⟨?_, found⟩
            rw [← List.singleton_append, Token.levelAfter_append] at level
            exact level
      have plain : depth = 0 → endsCondition terminators t (own ++ rest) = false :=
        fun zero => free [] t own rfl zero
      cases kind : t.kind with
      | opening => 
          simp [cutCondition, kind, step (depth + 1) (by simp [Token.levelAfter, kind])]
      | closing =>
          simp [cutCondition, kind, step (depth - 1) (by simp [Token.levelAfter, kind])]
      | word =>
          have own' := step depth (by simp [Token.levelAfter, kind])
          simp only [List.cons_append, cutCondition, kind, own']
          by_cases zero : depth = 0
          · simp [plain zero]
          · simp [zero]
      | string =>
          have own' := step depth (by simp [Token.levelAfter, kind])
          simp only [List.cons_append, cutCondition, kind, own']
          by_cases zero : depth = 0
          · simp [plain zero]
          · simp [zero]

/-- Whether symbols begin with a keyword that ends a condition. -/
def EndsAt (terminators : List String) (xs : List Symbol) : Prop :=
  ∃ name rest, xs = .keyword name :: rest ∧ name ∈ terminators ∧
    (name = "TO" → ∃ value more, rest = .quoted value :: more)

theorem head_of_ends {terminators : List String} {ts : List Token}
    (ends : xs = [] ∨ EndsAt terminators xs) (reads : Reads line xs ts) :
    ts.head?.map (·.kind) ≠ some .string := by
  rcases ends with rfl | ⟨name, rest, rfl, _⟩
  · cases reads
    simp
  · cases reads with
    | keyword word _ => simp [word]

theorem endsCondition_of_endsAt {terminators : List String} {ts : List Token}
    (ends : EndsAt terminators xs) (reads : Reads line xs ts) :
    ∃ t rest, ts = t :: rest ∧ t.kind = .word ∧ endsCondition terminators t rest = true := by
  obtain ⟨name, more, rfl, member, follows⟩ := ends
  cases reads with
  | @keyword t _ rest word reads =>
      refine ⟨t, rest, rfl, word, ?_⟩
      have found : t.isKeyword terminators = true := by
        rw [isKeyword_of_word word]
        simpa using member
      simp only [endsCondition, found, Bool.true_and, Bool.or_eq_true, Bool.not_eq_true']
      by_cases target : String.ofList (Text.upper t.value.toList) = "TO"
      · right
        obtain ⟨value, last, rfl⟩ := follows target
        cases reads with
        | quoted string _ => simp [string]
      · left
        rw [isKeyword_of_word word]
        simpa using target

theorem takes_conditionText {terminators : List String} {followed : Prop} {text : String}
    (valid : ConditionText terminators followed text)
    (ends : xs = [] ∨ followed ∧ EndsAt terminators xs) :
    Takes line (conditionText line terminators) (.condition text :: xs) text xs := by
  intro ts reads
  obtain ⟨trimmed, vs, read, some, unended, level⟩ := valid
  cases reads with
  | @condition _ offset us _ ts scans placed rest =>
      refine ⟨ts, rest, ?_⟩
      obtain rfl : us = vs := by
        have both := (Token.scan_of_scans scans).symm.trans read
        simpa using both
      have nonempty : text.toList ≠ [] := fun empty => some (scans.eq_nil empty)
      rw [Text.trim_eq_self_iff] at trimmed
      -- the text runs from the start of its first token to the stop of its last one
      obtain ⟨first, head, start⟩ := scans.head_start nonempty trimmed.1
      obtain ⟨last, tail, stop⟩ := scans.last_stop nonempty trimmed.2
      have other := head_of_ends (ends.imp_right And.right) rest
      have cut : cutCondition terminators 0 (us.map (Token.shift offset) ++ ts) =
          (us.map (Token.shift offset), ts) := by
        refine cutCondition_append ?_ ?_
        · intro before t behind same free
          obtain ⟨a, b, rfl, rfl, right⟩ := List.map_eq_append_iff.mp same
          obtain ⟨u, c, rfl, rfl, rfl⟩ := List.map_eq_cons_iff.mp right
          rw [Token.levelAfter_shift] at free
          rw [endsCondition_shift terminators offset u c other]
          exact unended a u c rfl free
        · rcases ends with rfl | ⟨follows, ends⟩
          · cases rest
            exact .inl rfl
          · rw [Token.levelAfter_shift]
            exact .inr ⟨level follows, endsCondition_of_endsAt ends rest⟩
      have left : (us.map (Token.shift offset)).head? = Option.some (first.shift offset) := by
        rw [List.head?_map, head]
        rfl
      have right : (us.map (Token.shift offset)).getLast? = Option.some (last.shift offset) := by
        rw [List.getLast?_map, tail]
        rfl
      have span : slice line (first.shift offset).start (last.shift offset).stop = text.toList := by
        rw [← placed]
        simp only [Token.shift, start, stop]
        rw [Nat.zero_add, Nat.zero_add, Nat.add_comm]
      have back : Text.trim text.toList = text.toList := Text.trim_eq_self_iff.mpr trimmed
      simp [conditionText, cut, left, right, span, back]
      rfl

/-! ## Clauses that may be left out -/

/-- Reads what stands after a keyword, if the keyword comes next. -/
def optional (name : String) (p : TokenReader α) : TokenReader (Option α) := do
  match ← accept [name] with
  | some _ => some <$> p
  | none => return none

theorem takes_optional {name : String} {p : TokenReader α} {a : α} (taken : Takes line p xs a ys) :
    Takes line (optional name p) (.keyword name :: xs) (some a) ys :=
  (takes_accept (by simp)).bind (taken.map some)

theorem takes_optional_none {name : String} (p : TokenReader α) (misses : Misses [name] xs) :
    Takes line (optional name p) xs none xs :=
  (takes_accept_none misses).bind (takes_pure none)

theorem bind_optional (name : String) (p : TokenReader α) (f : Option α → TokenReader β) :
    (do
      match ← accept [name] with
      | some _ => do
        let a ← some <$> p
        f a
      | none => do
        let a ← pure none
        f a) = optional name p >>= f := by
  rw [optional, bind_assoc]
  congr 1
  funext found
  cases found with
  | none => rfl
  | some _ => rfl

theorem source_eq (terminators : List String) :
    source line terminators = do
      let folder ← optional "FROM" (expectString "source folder")
      let clause ← optional "WHERE" (conditionText line terminators)
      return { folder, clause } := by
  rw [← bind_optional]
  simp only [← bind_optional]
  rfl

theorem misses_of_ends {terminators names : List String} {followed : Prop}
    (ends : xs = [] ∨ followed ∧ EndsAt terminators xs) (apart : ∀ n ∈ terminators, n ∉ names) :
    Misses names xs := by
  rcases ends with rfl | ⟨_, name, rest, rfl, member, _⟩
  · exact .inl rfl
  · exact .inr (.inl ⟨name, rest, rfl, apart name member⟩)

theorem takes_source {terminators : List String} {followed : Prop} {s : Source}
    (valid : s.Printable terminators followed)
    (ends : xs = [] ∨ followed ∧ EndsAt terminators xs)
    (apart : ∀ n ∈ terminators, n ≠ "FROM" ∧ n ≠ "WHERE") :
    Takes line (source line terminators) (Symbol.source s ++ xs) s xs := by
  obtain ⟨folder, clause⟩ := s
  have first : Takes line (optional "FROM" (expectString "source folder"))
      (Symbol.clause "FROM" folder ++ (Symbol.restriction clause ++ xs)) folder
      (Symbol.restriction clause ++ xs) := by
    cases folder with
    | some f => exact takes_optional (takes_name (valid.folder f rfl))
    | none =>
        apply takes_optional_none
        cases clause with
        | some c => exact .inr (.inl ⟨"WHERE", _, rfl, by decide⟩)
        | none => exact misses_of_ends ends fun n member => by simp [(apart n member).1]
  have second : Takes line (optional "WHERE" (conditionText line terminators))
      (Symbol.restriction clause ++ xs) clause xs := by
    cases clause with
    | some c => exact takes_optional (takes_conditionText (valid.clause c rfl) ends)
    | none =>
        apply takes_optional_none
        exact misses_of_ends ends fun n member => by simp [(apart n member).2]
  rw [source_eq, Symbol.source, List.append_assoc]
  exact first.bind (second.bind (takes_pure _))

/-- The field of an ORDER BY clause is the next bare word, which is not INTO. -/
theorem takes_field {word : String} {p : String → TokenReader α} {a : α}
    (other : ¬ Token.Spells "INTO" word.toList) (next : Takes line (p word) xs a ys) :
    Takes line (do
      match ← get with
      | t :: ts =>
        if (decide (t.kind = .word) && !t.isKeyword ["INTO"]) = true then do
          set ts
          p t.value
        else throw .noSortField
      | [] => throw .noSortField) (.bare word :: xs) a ys := by
  intro ts reads
  cases reads with
  | @bare t _ ts word rest =>
      obtain ⟨last, left, ran⟩ := next ts rest
      have free : t.isKeyword ["INTO"] = false := by
        rw [isKeyword_of_word word]
        simpa [Token.Spells] using other
      refine ⟨last, left, ?_⟩
      simp [word, free]
      exact ran

/-- Reads the direction after the field of an ORDER BY clause, ascending where none is said. -/
def directed (field : String) : TokenReader (Option SortSpec) := do
  match ← accept ["ASC", "DESC"] with
  | some "DESC" => return some ⟨field, .descending⟩
  | _ => return some ⟨field, .ascending⟩

theorem takes_order {spec : Option SortSpec} {os : List Symbol} (form : OrderForm spec os)
    (valid : ∀ o ∈ spec, o.Printable) (misses : Misses ["ASC", "DESC", "ORDER"] xs) :
    Takes line order (os ++ xs) spec xs := by
  have fewer : ∀ {names : List String}, names ⊆ ["ASC", "DESC", "ORDER"] → Misses names xs := by
    intro names part
    rcases misses with none | ⟨name, rest, same, other⟩ | string
    · exact .inl none
    · exact .inr (.inl ⟨name, rest, same, fun member => other (part member)⟩)
    · exact .inr (.inr string)
  have ordered : ∀ {s : SortSpec} {more : List Symbol}, s.Printable →
      Takes line (directed s.field) more (some s) xs →
      Takes line order (.keyword "ORDER" :: .keyword "BY" :: .bare s.field :: more) (some s) xs := by
    intro s more printable rest
    refine (takes_accept (by simp)).bind ((takes_expect (by simp)).bind ?_)
    exact takes_field (p := directed) printable.2 rest
  cases form with
  | none => exact (takes_accept_none (fewer (by simp))).bind (takes_pure none)
  | plain field =>
      exact ordered (valid _ rfl) ((takes_accept_none (fewer (by simp))).bind (takes_pure _))
  | ascending field =>
      exact ordered (valid _ rfl) ((takes_accept (by simp)).bind (takes_pure _))
  | descending field =>
      exact ordered (valid _ rfl) ((takes_accept (by simp)).bind (takes_pure _))

end FileQuery
