import FileQuery.Proofs.Statement.Sound

/-! # Tokens of the texts that tokens span

The text from the start of one token of a line to the stop of a later one has these two and those between
them as its tokens, only moved to its beginning. Conditions are cut out of lines so: a condition that a
reader cuts out has the tokens that the reader took (`own_of_conditionText`), and in a statement
they are those that follow the WHERE of its line (`Statement.Marks`). -/
set_option autoImplicit false
namespace FileQuery

open TokenReader

variable {line : List Char} {ts : List Token} {α : Type}

/-- Whether the tokens of a text, moved to where it begins in a line, are the given ones. -/
def Retokenizes (text : List Char) (start : Nat) (own : List Token) : Prop :=
  (tokenize text).map (List.map (Token.shift start)) = .ok own

theorem Ends.retokenizes {own rest : List Token} {first last : Token} (ends : Ends line (own ++ rest))
    (head : own.head? = some first) (back : own.getLast? = some last) :
    Retokenizes (TokenReader.slice line first.start last.stop) first.start own := by
  obtain ⟨_, us, scans, placed⟩ := ends.slice head back
  rw [Retokenizes, Token.tokenize_eq_ok_iff.mpr scans, ← placed]
  rfl

theorem retokenizes_between {i j : Nat} {first last : Token} (read : tokenize line = .ok ts)
    (order : i ≤ j) (head : ts[i]? = some first) (back : ts[j]? = some last) :
    Retokenizes (slice line first.start last.stop) first.start ((ts.take (j + 1)).drop i) := by
  have ends : Ends line ((ts.take (j + 1)).drop i ++ ts.drop (j + 1)) := by
    refine ⟨ts.take i, ?_⟩
    have front : ts.take i = (ts.take (j + 1)).take i := by
      rw [List.take_take, Nat.min_eq_left (by omega)]
    rw [front, ← List.append_assoc, List.take_append_drop, List.take_append_drop]
    exact Token.tokenize_eq_ok_iff.mp read
  refine ends.retokenizes ?_ ?_
  · rw [List.head?_drop, List.getElem?_take_of_lt (by omega), head]
  · obtain ⟨inside, _⟩ := List.getElem?_eq_some_iff.mp back
    rw [List.getLast?_drop, if_neg (by rw [List.length_take]; omega), List.getLast?_take]
    simp [back]

/-- A condition is the text between the tokens that its reader takes, and has these tokens. -/
theorem own_of_conditionText {terminators : List String} {text : String} {rest : List Token}
    (ends : Ends line ts) (ran : (conditionText line terminators).run ts = .ok (text, rest)) :
    ∃ own first last, ts = own ++ rest ∧ own.head? = some first ∧ own.getLast? = some last ∧
      text.toList = slice line first.start last.stop ∧
      Retokenizes text.toList first.start own := by
  obtain ⟨own, first, last, cut, head, back, rfl⟩ := cut_of_conditionText ran
  obtain ⟨rfl, _⟩ := cutCondition_spec cut
  have trimmed := (ends.slice head back).1
  refine ⟨own, first, last, rfl, head, back, ?_, ?_⟩
  · rw [String.toList_ofList, trimmed]
  · rw [String.toList_ofList, trimmed]
    exact ends.retokenizes head back

/-! ## The condition of a statement -/

/-- Whether the first WHERE among tokens stands in front of a condition that is read as a text. -/
def Restricts (line : List Char) (terminators : List String) (ts : List Token) (text : String) : Prop :=
  ∃ before mark behind rest, ts = before ++ mark :: behind ∧
    (∀ t ∈ before, t.isKeyword ["WHERE"] = false) ∧ mark.isKeyword ["WHERE"] = true ∧
    (conditionText line terminators).run behind = .ok (text, rest)

/-- Whether tokens are some that are no WHERE, and then others. -/
def Passes (ts rest : List Token) : Prop :=
  ∃ taken, ts = taken ++ rest ∧ ∀ t ∈ taken, t.isKeyword ["WHERE"] = false

theorem Passes.refl (ts : List Token) : Passes ts ts := ⟨[], rfl, by simp⟩

theorem Passes.single {t : Token} (other : t.isKeyword ["WHERE"] = false) : Passes (t :: ts) ts :=
  ⟨[t], rfl, by simpa using other⟩

theorem Passes.trans {mid rest : List Token} (first : Passes ts mid) (second : Passes mid rest) :
    Passes ts rest := by
  obtain ⟨a, rfl, left⟩ := first
  obtain ⟨b, rfl, right⟩ := second
  exact ⟨a ++ b, (List.append_assoc ..).symm, List.forall_mem_append.mpr ⟨left, right⟩⟩

theorem Passes.restricts {rest : List Token} {terminators : List String} {text : String}
    (passes : Passes ts rest) (restricts : Restricts line terminators rest text) :
    Restricts line terminators ts text := by
  obtain ⟨taken, rfl, others⟩ := passes
  obtain ⟨before, mark, behind, last, rfl, free, marked, ran⟩ := restricts
  exact ⟨taken ++ before, mark, behind, last, (List.append_assoc ..).symm,
    List.forall_mem_append.mpr ⟨others, free⟩, marked, ran⟩

theorem isKeyword_where {t : Token} {names : List String} (other : "WHERE" ∉ names)
    (named : t.isKeyword names = true) : t.isKeyword ["WHERE"] = false := by
  rw [← Bool.not_eq_true]
  intro mark
  simp only [Token.isKeyword, Bool.and_eq_true, List.contains_iff_mem, List.mem_singleton] at named mark
  exact other (mark.2 ▸ named.2)

theorem passes_expect {names : List String} (other : "WHERE" ∉ names) :
    Gives line ts (expect names) fun _ rest => Passes ts rest := by
  refine gives_expect.mono ?_
  rintro _ rest ⟨t, rfl, named⟩
  exact .single (isKeyword_where other named)

theorem passes_string {what : String} {allow : Bool} :
    Gives line ts (expectString what allow) fun _ rest => Passes ts rest := by
  intro ends value rest ran
  obtain ⟨⟨t, rfl, string⟩, _⟩ := of_expectString ran
  exact ⟨ends.tail, .single (isKeyword_of_string string)⟩

theorem restricts_source (terminators : List String) : Gives line ts (source line terminators)
    fun s _ => ∀ text, s.clause = some text → Restricts line terminators ts text := by
  rw [source_eq]
  have folder : Gives line ts (optional "FROM" (expectString "source folder")) fun _ rest =>
      Passes ts rest := by
    refine (gives_optional fun _ => passes_string).mono ?_
    rintro _ rest (⟨t, mid, _, rfl, named, _, passes⟩ | ⟨_, rfl⟩)
    · exact (Passes.single (isKeyword_where (by decide) named)).trans passes
    · exact .refl _
  refine folder.bind fun found mid passes => ?_
  refine (gives_optional fun _ => (gives_condition terminators).ran).bind ?_
  rintro clause rest (⟨mark, behind, text, rfl, named, rfl, _, ran⟩ | ⟨rfl, _⟩)
  · refine gives_pure fun w same => ?_
    obtain rfl := Option.some.inj same
    exact passes.restricts ⟨[], mark, behind, rest, rfl, by simp, named, ran⟩
  · exact gives_pure (fun _ none => nomatch none)

namespace Statement

def clause? : Statement → Option String
  | deleteAll _ source | transferAll _ _ _ source | select _ source _ _ => source.clause
  | _ => none

/-- The keywords that end the condition of a statement. -/
def terminators : Statement → List String
  | transferAll _ _ _ _ => ["TO"]
  | select _ _ _ _ => ["ORDER", "INTO"]
  | _ => []

/-- Whether the condition of a statement is the one that its tokens state. -/
def Marks (line : List Char) (ts : List Token) (s : Statement) : Prop :=
  ∀ text, s.clause? = some text → Restricts line s.terminators ts text

theorem Marks.of_none {s : Statement} (none : s.clause? = none) : Marks line ts s := by
  intro text some
  rw [none] at some
  cases some

theorem Marks.behind {rest : List Token} {s : Statement} (passes : Passes ts rest)
    (marks : Marks line rest s) : Marks line ts s :=
  fun text some => passes.restricts (marks text some)

theorem marks_delete : Gives line ts (readDelete line) fun s _ => Marks line ts s := by
  refine (passes_expect (by decide)).bind fun word mid passes => ?_
  have single (kind : Kind) (what : String) :
      Gives line mid (do return Statement.delete kind (← expectString what true)) fun s _ =>
        Marks line ts s :=
    gives_string.bind fun name last _ => gives_pure (.of_none rfl)
  have all (kind : Kind) : Gives line mid (do
      return Statement.deleteAll kind (← source line [])) fun s _ => Marks line ts s :=
    (restricts_source []).bind fun source last marks => gives_pure (.behind passes marks)
  split
  · exact single .file "file name"
  · exact single .folder "folder name"
  · exact all .file
  · exact all .folder

theorem marks_transfer (mode : Transfer) :
    Gives line ts (readTransfer line mode) fun s _ => Marks line ts s := by
  refine (passes_expect (by decide)).bind fun word mid passes => ?_
  have single (kind : Kind) : Gives line mid (readTransferOne mode kind) fun s _ =>
      Marks line ts s :=
    gives_string.bind fun name _ _ => gives_expect.bind fun _ _ _ =>
      gives_string.bind fun target _ _ => gives_pure (.of_none rfl)
  have all (kind : Kind) : Gives line mid (readTransferAll line mode kind) fun s _ =>
      Marks line ts s :=
    (restricts_source ["TO"]).bind fun source _ marks => gives_expect.bind fun _ _ _ =>
      gives_string.bind fun target _ _ => gives_pure (.behind passes marks)
  split
  · exact single .file
  · exact single .folder
  · exact all .file
  · exact all .folder

theorem marks_select : Gives line ts (readSelect line) fun s _ => Marks line ts s := by
  rw [readSelect_eq]
  refine (passes_expect (by decide)).bind fun word mid passes => ?_
  refine (restricts_source ["ORDER", "INTO"]).bind fun source _ marks => ?_
  refine gives_order.bind fun spec _ _ => ?_
  exact (gives_optional fun _ => gives_string).bind fun into _ _ => gives_pure (.behind passes marks)

/-- Whether a reader reads only statements without a condition. -/
def Plain (line : List Char) (reader : TokenReader Statement) : Prop :=
  ∀ ts, Gives line ts reader fun s _ => s.clause? = none

theorem plain_load : Plain line readLoad := by
  refine fun ts => gives_string.bind fun path _ _ => ?_
  split
  · exact gives_pure rfl
  · exact gives_throw _ _

theorem plain_list : Plain line readList := by
  refine fun ts => gives_expect.bind fun word _ _ => ?_
  split <;> exact gives_pure rfl

theorem plain_count : Plain line readCount := by
  refine fun ts => gives_expect.bind fun word _ _ => ?_
  split <;> exact gives_pure rfl

theorem plain_merge : Plain line readMerge := by
  intro ts
  rw [readMerge_eq]
  refine gives_sources.bind fun sources _ _ => ?_
  split
  · exact gives_throw _ _
  · exact gives_expect.bind fun _ _ _ => gives_string.bind fun file _ _ => gives_pure rfl

theorem plain_chmod : Plain line readChmod := by
  refine fun ts => gives_string.bind fun name _ _ => gives_expect.bind fun _ _ _ => ?_
  refine gives_string.bind fun mode _ _ => ?_
  split
  · exact gives_pure rfl
  · exact gives_throw _ _

/-- A keyword and the name of a file come before what else the statement says. -/
theorem plain_named {f : String → TokenReader Statement} {names : List String} {what : String}
    {allow : Bool} (next : ∀ name, Plain line (f name)) :
    Plain line (do let _ ← expect names; f (← expectString what allow)) :=
  fun _ => gives_expect.bind fun _ _ _ => gives_string.bind fun name mid _ => next name mid

theorem marks_reader {verb : String} {reader : TokenReader Statement}
    (found : readerOf line verb = some reader) :
    Gives line ts reader fun s _ => Marks line ts s := by
  have plain {p : TokenReader Statement} (plain : Plain line p) :
      Gives line ts p fun s _ => Marks line ts s :=
    (plain ts).mono fun _ _ none => .of_none none
  have done (s : Statement) (none : s.clause? = none) : Plain line (pure s) :=
    fun _ => gives_pure none
  unfold readerOf at found
  split at found
  all_goals try obtain rfl := Option.some.inj found
  · exact plain plain_load
  · exact plain fun _ => gives_kind.bind fun _ _ _ => gives_string.bind fun _ _ _ => gives_pure rfl
  · exact plain (plain_named fun _ => done _ rfl)
  · exact plain (plain_named fun _ => done _ rfl)
  · exact plain (plain_named fun _ => done _ rfl)
  · exact plain (plain_named fun _ => plain_named fun _ => done _ rfl)
  · exact plain (plain_named fun _ => plain_named fun _ => done _ rfl)
  · exact marks_delete
  · exact plain fun _ => gives_string.map fun _ _ _ => rfl
  · exact plain (done _ rfl)
  · exact plain plain_list
  · exact marks_transfer .move
  · exact marks_transfer .copy
  · exact plain fun _ => gives_kind.bind fun _ _ _ => gives_string.bind fun _ _ _ =>
      gives_expect.bind fun _ _ _ => gives_string.bind fun _ _ _ => gives_pure rfl
  · exact plain plain_count
  · exact marks_select
  · exact plain plain_merge
  · exact plain plain_chmod
  · cases found

theorem isKeyword_of_reader {t : Token} {reader : TokenReader Statement}
    (found : readerOf line (String.ofList (Text.upper t.value.toList)) = some reader) :
    t.isKeyword ["WHERE"] = false := by
  rw [← Bool.not_eq_true]
  intro mark
  simp only [Token.isKeyword, Bool.and_eq_true, List.contains_iff_mem, List.mem_singleton] at mark
  rw [mark.2] at found
  cases found

theorem marks_readAll : Gives line ts (readAll line) fun s _ => Marks line ts s := by
  refine gives_get.bind ?_
  rintro us mid ⟨rfl, rfl⟩
  split
  · exact gives_throw _ _
  · next t behind =>
      split
      · exact (gives_throw _ fun _ _ => False).bind fun _ _ never => never.elim
      · simp only
        split
        · exact gives_throw _ _
        · next reader found =>
            refine (gives_set [t] rfl).bind fun _ rest same => ?_
            obtain rfl := same
            refine (marks_reader found).bind fun s left marks => ?_
            exact gives_end.bind fun _ last _ =>
              gives_pure (.behind (.single (isKeyword_of_reader found)) marks)

theorem restricts_of_parse {typed text : String} (some : (parse typed).clause? = some text) :
    ∃ ts, tokenize (Text.trim typed.toList) = .ok ts ∧
      Restricts (Text.trim typed.toList) (parse typed).terminators ts text := by
  cases read : read? (Text.trim typed.toList) with
  | error e => simp [parse, read, clause?] at some
  | ok s =>
      obtain rfl : parse typed = s := by simp [parse, read]
      obtain ⟨ts, rest, tokens, ran⟩ := of_read? read
      have ends : Ends (Text.trim typed.toList) ts := ⟨[], Token.tokenize_eq_ok_iff.mp tokens⟩
      exact ⟨ts, tokens, (marks_readAll ends _ _ ran).2 text some⟩

end Statement

/-- The text from one token of a line to another has the tokens from the one to the other, moved to where
they stand in the line. So has a condition that is cut out of a line: its tokens are those that its reader
took, which in a statement are those behind its WHERE. -/
theorem slices_retokenize :
    (∀ line ts i j first last, tokenize line = .ok ts → i ≤ j → ts[i]? = some first →
      ts[j]? = some last →
      Retokenizes (slice line first.start last.stop) first.start ((ts.take (j + 1)).drop i)) ∧
    (∀ line terminators before ts text rest, tokenize line = .ok (before ++ ts) →
      (conditionText line terminators).run ts = .ok (text, rest) →
      ∃ own first last, ts = own ++ rest ∧ own.head? = some first ∧ own.getLast? = some last ∧
        text.toList = slice line first.start last.stop ∧ Retokenizes text.toList first.start own) ∧
    ∀ typed text, (Statement.parse typed).clause? = some text →
      ∃ before mark own rest first last,
        tokenize (Text.trim typed.toList) = .ok (before ++ mark :: (own ++ rest)) ∧
        (∀ t ∈ before, t.isKeyword ["WHERE"] = false) ∧ mark.isKeyword ["WHERE"] = true ∧
        (conditionText (Text.trim typed.toList) (Statement.parse typed).terminators).run
          (own ++ rest) = .ok (text, rest) ∧
        own.head? = some first ∧ own.getLast? = some last ∧
        text.toList = slice (Text.trim typed.toList) first.start last.stop ∧
        Retokenizes text.toList first.start own := by
  have cut {line : List Char} {terminators : List String} {before ts rest : List Token} {text : String}
      (tokens : tokenize line = .ok (before ++ ts))
      (ran : (conditionText line terminators).run ts = .ok (text, rest)) :=
    own_of_conditionText ⟨before, Token.tokenize_eq_ok_iff.mp tokens⟩ ran
  refine ⟨fun _ _ _ _ _ _ => retokenizes_between, fun _ _ _ _ _ _ => cut, fun typed text some => ?_⟩
  obtain ⟨_, tokens, before, mark, behind, rest, rfl, free, marked, ran⟩ :=
    Statement.restricts_of_parse some
  have split : tokenize (Text.trim typed.toList) = .ok ((before ++ [mark]) ++ behind) := by
    rw [tokens, List.append_assoc, List.singleton_append]
  obtain ⟨own, first, last, rfl, head, back, placed, again⟩ := cut split ran
  exact ⟨before, mark, own, rest, first, last, tokens, free, marked, ran, head, back, placed, again⟩

/-- Four tokens of a line; a condition that ends where a text ends; and one that ends at the last TO. -/
theorem slices_retokenize_of_copy :
    Retokenizes (slice "a (b 'c')d".toList 2 9) 2
      [⟨.opening, "(", 2, 3⟩, ⟨.word, "b", 3, 4⟩, ⟨.string, "c", 5, 8⟩, ⟨.closing, ")", 8, 9⟩] ∧
    (∃ own first last, [⟨.word, "b", 6, 7⟩] = own ++ [] ∧ own.head? = some first ∧
      own.getLast? = some last ∧ "b".toList = slice "WHERE b".toList first.start last.stop ∧
      Retokenizes "b".toList first.start own) ∧
    ∃ before mark own rest first last,
      tokenize "copy files where name = 'to' to 'b'".toList = .ok (before ++ mark :: (own ++ rest)) ∧
      (∀ t ∈ before, t.isKeyword ["WHERE"] = false) ∧ mark.isKeyword ["WHERE"] = true ∧
      (conditionText "copy files where name = 'to' to 'b'".toList ["TO"]).run (own ++ rest) =
        .ok ("name = 'to'", rest) ∧
      own.head? = some first ∧ own.getLast? = some last ∧
      "name = 'to'".toList =
        slice "copy files where name = 'to' to 'b'".toList first.start last.stop ∧
      Retokenizes "name = 'to'".toList first.start own := by
  have read : Statement.parse "copy files where name = 'to' to 'b'" =
      .transferAll .copy .file "b" ⟨none, some "name = 'to'"⟩ := by decide +kernel
  have trimmed : Text.trim "copy files where name = 'to' to 'b'".toList =
      "copy files where name = 'to' to 'b'".toList := by decide +kernel
  have stated := slices_retokenize.2.2 "copy files where name = 'to' to 'b'" "name = 'to'"
    (by rw [read]; rfl)
  rw [read, trimmed] at stated
  refine ⟨?_, ?_, stated⟩
  · exact slices_retokenize.1 "a (b 'c')d".toList
      [⟨.word, "a", 0, 1⟩, ⟨.opening, "(", 2, 3⟩, ⟨.word, "b", 3, 4⟩, ⟨.string, "c", 5, 8⟩,
        ⟨.closing, ")", 8, 9⟩, ⟨.word, "d", 9, 10⟩] 1 4 _ _ (by decide +kernel) (by decide) rfl rfl
  · exact slices_retokenize.2.1 "WHERE b".toList [] [⟨.word, "WHERE", 0, 5⟩] [⟨.word, "b", 6, 7⟩] "b" []
      (by decide +kernel) (by decide +kernel)

end FileQuery
