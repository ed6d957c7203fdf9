import FileQuery.Proofs.Statement.Takes

/-! # Statements are read as they are printed

Every reader takes the symbols of its statements (`takes_readAll`), and the tokens of a rendered line
are tokens of its symbols (`Rendered.reads`). So any rendering of a statement whose fields can be
printed is read as that statement (`parse_rendered`). -/
set_option autoImplicit false
namespace FileQuery.Statement

open TokenReader

variable {line : List Char} {xs : List Symbol}

/-! ## Verbs -/

theorem takes_verb {verb : String} {reader : TokenReader Statement} {s : Statement}
    (found : readerOf line verb = some reader) (body : Takes line reader xs s []) :
    Takes line (readAll line) (.keyword verb :: xs) s [] := by
  intro ts reads
  have whole : Takes line (do
      let statement ← reader
      expectEnd
      return statement) xs s [] :=
    body.bind (f := fun s => expectEnd >>= fun _ => pure s) (takes_expectEnd.bind (takes_pure s))
  cases reads with
  | @keyword t _ ts word rest =>
      obtain ⟨last, empty, ran⟩ := whole ts rest
      refine ⟨last, empty, ?_⟩
      simp [readAll, word, found]
      exact ran

theorem takes_delete (kind : Kind) {name : String} (filled : name ≠ "") :
    Takes line (readDelete line) [.keyword kind.title, .quoted name] (.delete kind name) [] := by
  cases kind with
  | file =>
      refine (takes_expect (by simp [Kind.title])).bind ?_
      exact (takes_expectString (.inr rfl) (.inl filled)).bind (takes_pure _)
  | folder =>
      refine (takes_expect (by simp [Kind.title])).bind ?_
      exact (takes_expectString (.inr rfl) (.inl filled)).bind (takes_pure _)

theorem takes_deleteAll (kind : Kind) {source : Source} (valid : source.Printable [] False) :
    Takes line (readDelete line) (.keyword kind.plural :: Symbol.source source)
      (.deleteAll kind source) [] := by
  have rest : Takes line (TokenReader.source line []) (Symbol.source source) source [] := by
    have read : Takes line (TokenReader.source line []) (Symbol.source source ++ []) source [] :=
      takes_source valid (.inl rfl) (by simp)
    rwa [List.append_nil] at read
  cases kind with
  | file => exact (takes_expect (by simp [Kind.plural])).bind (rest.bind (takes_pure _))
  | folder => exact (takes_expect (by simp [Kind.plural])).bind (rest.bind (takes_pure _))

theorem takes_entries {kind : Option Kind} {word : String} (named : word ∈ entryWords kind) :
    Takes line readList [.keyword word] (.list kind) [] ∧
      Takes line readCount [.keyword word] (.count kind) [] := by
  obtain _ | _ | _ := kind
  all_goals
    simp only [entryWords, List.mem_cons, List.not_mem_nil, or_false] at named
    rcases named with rfl | rfl
    all_goals
      constructor
      · exact (takes_expect (by simp)).bind (takes_pure _)
      · exact (takes_expect (by simp)).bind (takes_pure _)

theorem takes_transfer (mode : Transfer) (kind : Kind) {name target : String}
    (filled : name ≠ "") (named : Named target) :
    Takes line (readTransfer line mode)
      [.keyword kind.title, .quoted name, .keyword "TO", .quoted target]
      (.transfer mode kind name target) [] := by
  have one : Takes line (readTransferOne mode kind) [.quoted name, .keyword "TO", .quoted target]
      (.transfer mode kind name target) [] := by
    refine (takes_expectString (.inr rfl) (.inl filled)).bind ?_
    exact (takes_expect (by simp)).bind ((takes_name named).bind (takes_pure _))
  cases kind with
  | file => exact (takes_expect (by simp [Kind.title])).bind one
  | folder => exact (takes_expect (by simp [Kind.title])).bind one

theorem takes_transferAll (mode : Transfer) (kind : Kind) {target : String} {source : Source}
    (named : Named target) (valid : source.Printable ["TO"] True) :
    Takes line (readTransfer line mode)
      (.keyword kind.plural :: (Symbol.source source ++ [.keyword "TO", .quoted target]))
      (.transferAll mode kind target source) [] := by
  have ends : EndsAt ["TO"] [.keyword "TO", .quoted target] :=
    ⟨"TO", _, rfl, by simp, fun _ => ⟨target, [], rfl⟩⟩
  have all : Takes line (readTransferAll line mode kind)
      (Symbol.source source ++ [.keyword "TO", .quoted target])
      (.transferAll mode kind target source) [] := by
    refine (takes_source valid (.inr ⟨trivial, ends⟩) (by simp)).bind ?_
    exact (takes_expect (by simp)).bind ((takes_name named).bind (takes_pure _))
  cases kind with
  | file => exact (takes_expect (by simp [Kind.plural])).bind all
  | folder => exact (takes_expect (by simp [Kind.plural])).bind all

theorem readMerge_eq :
    readMerge = do
      let sources ← sourceNames
      if sources.isEmpty then throw .noMergeSource
      else
        let _ ← expect ["TO"]
        return .merge sources (← expectString "destination file") := by
  simp only [readMerge, sourceNames, bind_assoc, pure_bind]
  refine bind_congr fun ts => bind_congr fun found => bind_congr fun _ => ?_
  split
  · rfl
  · rfl

theorem takes_merge {sources : List String} {destination : String} (some : sources ≠ [])
    (each : ∀ s ∈ sources, Named s) (named : Named destination) :
    Takes line readMerge (sources.map .quoted ++ [.keyword "TO", .quoted destination])
      (.merge sources destination) [] := by
  rw [readMerge_eq]
  refine (takes_sourceNames each).bind ?_
  rw [if_neg (by simpa using some)]
  exact (takes_expect (by simp)).bind ((takes_name named).bind (takes_pure _))

theorem readSelect_eq :
    readSelect line = do
      let word ← expect ["FILES", "FOLDERS"]
      let source ← source line ["ORDER", "INTO"]
      let order ← order
      let into ← optional "INTO" (expectString "output file")
      return .select (match word with | "FILES" => .file | _ => .folder) source order into := by
  simp only [← bind_optional]
  rfl

theorem takes_select (kind : Kind) {source : Source} {spec : Option SortSpec} {os : List Symbol}
    {into : Option String} (form : OrderForm spec os)
    (valid : source.Printable ["ORDER", "INTO"] (spec ≠ none ∨ into ≠ none))
    (sorted : ∀ o ∈ spec, o.Printable) (named : ∀ f ∈ into, Named f) :
    Takes line (readSelect line)
      (.keyword kind.plural :: (Symbol.source source ++ (os ++ Symbol.clause "INTO" into)))
      (.select kind source spec into) [] := by
  have last : Takes line (optional "INTO" (expectString "output file"))
      (Symbol.clause "INTO" into) into [] := by
    cases into with
    | some f => exact takes_optional (takes_name (named f rfl))
    | none => exact takes_optional_none _ (.inl rfl)
  have misses : Misses ["ASC", "DESC", "ORDER"] (Symbol.clause "INTO" into) := by
    cases into with
    | some f => exact .inr (.inl ⟨"INTO", _, rfl, by decide⟩)
    | none => exact .inl rfl
  have ends : os ++ Symbol.clause "INTO" into = [] ∨ (spec ≠ none ∨ into ≠ none) ∧
      EndsAt ["ORDER", "INTO"] (os ++ Symbol.clause "INTO" into) := by
    cases form with
    | none =>
        cases into with
        | some f =>
            exact .inr ⟨.inr (by simp), "INTO", _, rfl, by simp, fun other => absurd other (by decide)⟩
        | none => exact .inl rfl
    | plain | ascending | descending =>
        exact .inr ⟨.inl (by simp), "ORDER", _, rfl, by simp, fun other => absurd other (by decide)⟩
  rw [readSelect_eq]
  have rest := (takes_source valid ends (by simp)).bind
    (f := fun source => order >>= fun spec => optional "INTO" (expectString "output file") >>=
      fun into => pure (Statement.select kind source spec into))
    ((takes_order form sorted misses).bind (last.bind (takes_pure _)))
  cases kind with
  | file => exact (takes_expect (by simp [Kind.plural])).bind rest
  | folder => exact (takes_expect (by simp [Kind.plural])).bind rest

theorem takes_chmod {name mode : String} (named : Named name) (filled : Named mode)
    (octal : isPermissionMode mode.toList = true) :
    Takes line readChmod [.quoted name, .keyword "TO", .quoted mode] (.chmod name mode) [] := by
  refine (takes_name named).bind ((takes_expect (by simp)).bind ((takes_name filled).bind ?_))
  rw [if_pos octal]
  exact takes_pure _

theorem takes_load {path : String} (named : Named path) (script : isScriptName path = true) :
    Takes line readLoad [.quoted path] (.load path) [] := by
  refine (takes_name named).bind ?_
  rw [if_pos script]
  exact takes_pure _

theorem takes_readAll {s : Statement} (form : Form s xs) (valid : s.Printable) :
    Takes line (readAll line) xs s [] := by
  cases form with
  | load path => exact takes_verb rfl (takes_load valid.1 valid.2)
  | create kind name =>
      exact takes_verb rfl ((takes_expectKind kind).bind ((takes_name valid).bind (takes_pure _)))
  | read name =>
      refine takes_verb rfl ((takes_expect (by simp)).bind ?_)
      exact (takes_expectString (.inr rfl) (.inl valid)).bind (takes_pure _)
  | edit either name =>
      have body : Takes line readEdit [.keyword "FILE", .quoted name] (.edit name) [] :=
        (takes_expect (by simp)).bind ((takes_name valid).bind (takes_pure _))
      rcases either with rfl | rfl
      · exact takes_verb rfl body
      · exact takes_verb rfl body
  | write name content =>
      refine takes_verb rfl ((takes_expect (by simp)).bind ((takes_name valid.1).bind ?_))
      refine (takes_expect (by simp)).bind ?_
      exact (takes_expectString (.inl valid.2) (.inr rfl)).bind (takes_pure _)
  | append name content =>
      refine takes_verb rfl ((takes_expect (by simp)).bind ((takes_name valid.1).bind ?_))
      refine (takes_expect (by simp)).bind ?_
      exact (takes_expectString (.inl valid.2) (.inr rfl)).bind (takes_pure _)
  | delete kind name => exact takes_verb rfl (takes_delete kind valid)
  | use folder => exact takes_verb rfl ((takes_name valid).map _)
  | drop => exact takes_verb rfl (takes_pure _)
  | list named => exact takes_verb rfl (takes_entries named).1
  | count named => exact takes_verb rfl (takes_entries named).2
  | transfer mode kind name target =>
      cases mode with
      | move => exact takes_verb rfl (takes_transfer .move kind valid.1 valid.2)
      | copy => exact takes_verb rfl (takes_transfer .copy kind valid.1 valid.2)
  | rename kind old new =>
      refine takes_verb rfl ((takes_expectKind kind).bind ((takes_name valid.1).bind ?_))
      exact (takes_expect (by simp)).bind ((takes_name valid.2).bind (takes_pure _))
  | chmod name mode => exact takes_verb rfl (takes_chmod valid.1 valid.2.1 valid.2.2)
  | merge sources destination => exact takes_verb rfl (takes_merge valid.1 valid.2.1 valid.2.2)
  | deleteAll kind source => exact takes_verb rfl (takes_deleteAll kind valid)
  | transferAll mode kind target source =>
      cases mode with
      | move => exact takes_verb rfl (takes_transferAll .move kind valid.1 valid.2)
      | copy => exact takes_verb rfl (takes_transferAll .copy kind valid.1 valid.2)
  | select kind source ordered into =>
      exact takes_verb rfl (takes_select kind ordered valid.1 valid.2.1 valid.2.2)

end FileQuery.Statement

namespace FileQuery

/-! ## Renderings -/

def keywords : List String :=
  ["LOAD", "CREATE", "READ", "EDIT", "FMLE", "WRITE", "UPDATE", "DELETE", "USE", "DROP", "LIST",
   "COUNT", "MOVE", "COPY", "RENAME", "CHMOD", "MERGE", "SELECT", "FILE", "FOLDER", "FILES",
   "FOLDERS", "ALL", "*", "TO", "ADD", "FROM", "WHERE", "ORDER", "BY", "ASC", "DESC", "INTO"]

theorem bare_of_mem_keywords : ∀ name ∈ keywords, Token.Bare name.toList := by
  decide

/-- Whether a symbol is read in a line as it stands. -/
def Symbol.Sound : Symbol → Prop
  | keyword name => name ∈ keywords
  | quoted _ => True
  | bare word => Token.Bare word.toList
  | condition text => text.toList ≠ [] ∧ Text.trim text.toList = text.toList ∧
      ∃ ts, Token.Scans 0 text.toList ts

theorem Symbol.sound_cons {name : String} {xs : List Symbol} (known : name ∈ keywords)
    (rest : ∀ x ∈ xs, x.Sound) : ∀ x ∈ keyword name :: xs, x.Sound :=
  List.forall_mem_cons.mpr ⟨known, rest⟩

theorem Kind.title_mem_keywords (kind : Kind) : kind.title ∈ keywords := by
  cases kind <;> decide

theorem Kind.plural_mem_keywords (kind : Kind) : kind.plural ∈ keywords := by
  cases kind <;> decide

theorem Transfer.verb_mem_keywords (mode : Transfer) : mode.verb ∈ keywords := by
  cases mode <;> decide

theorem entryWords_subset (kind : Option Kind) : entryWords kind ⊆ keywords := by
  obtain _ | _ | _ := kind
  all_goals decide

theorem ConditionText.sound {terminators : List String} {followed : Prop} {text : String}
    (valid : ConditionText terminators followed text) : (Symbol.condition text).Sound := by
  obtain ⟨trimmed, ts, read, some, _⟩ := valid
  have scans := Token.tokenize_eq_ok_iff.mp read
  exact ⟨fun empty => some (scans.eq_nil empty), trimmed, ts, scans⟩

theorem Symbol.sound_clause {name : String} (known : name ∈ keywords) (value : Option String) :
    ∀ x ∈ clause name value, x.Sound := by
  cases value with
  | none => simp [clause]
  | some v => exact sound_cons known (by simp [Sound])

theorem Source.Printable.sound {terminators : List String} {followed : Prop} {s : Source}
    (valid : s.Printable terminators followed) : ∀ x ∈ Symbol.source s, x.Sound := by
  obtain ⟨folder, clause⟩ := s
  refine List.forall_mem_append.mpr ⟨Symbol.sound_clause (by decide) folder, ?_⟩
  cases clause with
  | none => simp [Symbol.restriction]
  | some c =>
      apply Symbol.sound_cons (by decide)
      simpa using (valid.clause c rfl).sound

theorem OrderForm.sound {spec : Option SortSpec} {os : List Symbol} (form : OrderForm spec os)
    (valid : ∀ o ∈ spec, o.Printable) : ∀ x ∈ os, x.Sound := by
  cases form with
  | none => simp
  | plain field | ascending field | descending field =>
      have bare : Token.Bare field.toList := (valid _ rfl).1
      simp [Symbol.Sound, keywords, bare]

theorem Form.sound {s : Statement} {xs : List Symbol} (form : Form s xs) (valid : s.Printable) :
    ∀ x ∈ xs, x.Sound := by
  cases form with
  | load | read | write | append | use | drop | chmod => simp [Symbol.Sound, keywords]
  | edit either => rcases either with rfl | rfl <;> simp [Symbol.Sound, keywords]
  | create kind | delete kind | rename kind =>
      refine Symbol.sound_cons (by decide) (Symbol.sound_cons kind.title_mem_keywords ?_)
      simp [Symbol.Sound, keywords]
  | list named | count named =>
      exact Symbol.sound_cons (by decide) (Symbol.sound_cons (entryWords_subset _ named) (by simp))
  | transfer mode kind name target =>
      refine Symbol.sound_cons mode.verb_mem_keywords (Symbol.sound_cons kind.title_mem_keywords ?_)
      simp [Symbol.Sound, keywords]
  | merge sources destination =>
      refine Symbol.sound_cons (by decide) (List.forall_mem_append.mpr ⟨?_, ?_⟩)
      · intro x member
        obtain ⟨value, _, rfl⟩ := List.mem_map.mp member
        trivial
      · simp [Symbol.Sound, keywords]
  | deleteAll kind source =>
      exact Symbol.sound_cons (by decide) (Symbol.sound_cons kind.plural_mem_keywords valid.sound)
  | transferAll mode kind target source =>
      refine Symbol.sound_cons mode.verb_mem_keywords (Symbol.sound_cons kind.plural_mem_keywords ?_)
      exact List.forall_mem_append.mpr ⟨valid.2.sound, by simp [Symbol.Sound, keywords]⟩
  | select kind source ordered into =>
      refine Symbol.sound_cons (by decide) (Symbol.sound_cons kind.plural_mem_keywords ?_)
      refine List.forall_mem_append.mpr ⟨valid.1.sound, ?_⟩
      exact List.forall_mem_append.mpr
        ⟨ordered.sound valid.2.1, Symbol.sound_clause (by decide) into⟩

theorem Symbol.Typed.reads {x : Symbol} {w : List Char} (typed : x.Typed w) (sound : x.Sound)
    (lead r : List Char) : ∃ us, Token.Scans lead.length w us ∧
      ∀ {xs ts}, Reads (lead ++ (w ++ r)) xs ts → Reads (lead ++ (w ++ r)) (x :: xs) (us ++ ts) := by
  cases x with
  | keyword name =>
      have bare := typed.bare (bare_of_mem_keywords name sound)
      have scans : Token.Scans lead.length (w ++ []) [Token.ofWord w lead.length] :=
        .word bare (by simp) (.nil _)
      rw [List.append_nil] at scans
      refine ⟨_, scans, fun rest => ?_⟩
      have read := Reads.keyword (t := Token.ofWord w lead.length) rfl rest
      rwa [Token.ofWord, String.toList_ofList, typed] at read
  | quoted value =>
      obtain ⟨q, quote, enclosed, rfl⟩ := typed
      refine ⟨_, .string quote enclosed (.nil _), fun rest => ?_⟩
      have read := Reads.quoted (t := Token.ofString value.toList lead.length) rfl rest
      simpa [Token.ofString] using read
  | bare word =>
      obtain rfl : w = word.toList := typed
      have scans : Token.Scans lead.length (word.toList ++ [])
          [Token.ofWord word.toList lead.length] := .word sound (by simp) (.nil _)
      rw [List.append_nil] at scans
      refine ⟨_, scans, fun rest => ?_⟩
      have read := Reads.bare (t := Token.ofWord word.toList lead.length) rfl rest
      simpa [Token.ofWord] using read
  | condition text =>
      obtain rfl : w = text.toList := typed
      obtain ⟨_, _, us, scans⟩ := sound
      have moved := scans.shift lead.length
      rw [Nat.zero_add] at moved
      exact ⟨_, moved, fun rest => .condition scans TokenReader.slice_append rest⟩

theorem Rendered.reads {xs : List Symbol} {s : List Char} (rendered : Rendered xs s)
    (sound : ∀ x ∈ xs, x.Sound) : ∀ lead : List Char,
      ∃ ts, Token.Scans lead.length s ts ∧ Reads (lead ++ s) xs ts := by
  induction rendered with
  | @last x s typed =>
      intro lead
      obtain ⟨us, scans, read⟩ := typed.reads (sound x (by simp)) lead []
      rw [List.append_nil] at read
      exact ⟨us ++ [], by rwa [List.append_nil], read .nil⟩
  | @more x xs w gap s typed parts _ ih =>
      intro lead
      obtain ⟨us, scans, read⟩ := typed.reads (sound x (by simp)) lead (gap ++ s)
      obtain ⟨ts, behind, rest⟩ :=
        ih (fun y member => sound y (List.mem_cons_of_mem _ member)) (lead ++ (w ++ gap))
      have whole : lead ++ (w ++ gap) ++ s = lead ++ (w ++ (gap ++ s)) := by simp
      rw [whole] at rest
      refine ⟨us ++ ts, scans.append parts ?_, read rest⟩
      rwa [List.length_append, List.length_append, ← Nat.add_assoc] at behind

theorem Symbol.Typed.trimmed {x : Symbol} {w : List Char} (typed : x.Typed w) (sound : x.Sound) :
    w ≠ [] ∧ Text.trim w = w := by
  cases x with
  | keyword name =>
      have bare := typed.bare (bare_of_mem_keywords name sound)
      exact ⟨bare.nonempty, bare.trimmed⟩
  | quoted value =>
      obtain ⟨q, quote, _, rfl⟩ := typed
      exact ⟨by simp, Token.trimmed_string quote value.toList⟩
  | bare word =>
      obtain rfl : w = word.toList := typed
      exact ⟨sound.nonempty, Token.Bare.trimmed sound⟩
  | condition text =>
      obtain rfl : w = text.toList := typed
      exact ⟨sound.1, sound.2.1⟩

theorem Rendered.trimmed {xs : List Symbol} {s : List Char} (rendered : Rendered xs s)
    (sound : ∀ x ∈ xs, x.Sound) : s ≠ [] ∧ Text.trim s = s := by
  induction rendered with
  | last typed => exact typed.trimmed (sound _ (by simp))
  | more typed parts _ ih =>
      have first := typed.trimmed (sound _ (by simp))
      have rest := ih fun y member => sound y (List.mem_cons_of_mem _ member)
      exact ⟨by simp [first.1], Text.trim_between first.2 rest.2 first.1 rest.1 _⟩

namespace Statement

theorem parse_of_scans {line text : List Char} {ts rest : List Token} {s : Statement}
    (trimmed : Text.trim line = text) (scans : Token.Scans 0 text ts)
    (ran : (readAll text).run ts = .ok (s, rest)) : parse (String.ofList line) = s := by
  have tokens : tokenize text = .ok ts := Token.tokenize_eq_ok_iff.mpr scans
  have read : read? text = .ok s := by
    rw [read?, tokens]
    simp only [bind, Except.bind]
    rw [ran]
    rfl
  rw [parse, String.toList_ofList, trimmed]
  simp only [read]

/-- Any rendering of a statement is read as that statement, with blanks before and after it or
without. -/
theorem parse_rendered {s : Statement} {xs : List Symbol} {text lead trail : List Char}
    (form : Form s xs) (printable : s.Printable) (rendered : Rendered xs text)
    (before : Text.Blanks lead) (behind : Text.Blanks trail) :
    parse (String.ofList (lead ++ text ++ trail)) = s := by
  have sound := form.sound printable
  have trimmed : Text.trim (lead ++ text ++ trail) = text := by
    rw [Text.trim_pad before behind, (rendered.trimmed sound).2]
  obtain ⟨ts, scans, reads⟩ := rendered.reads sound []
  obtain ⟨rest, empty, ran⟩ := takes_readAll form printable ts reads
  exact parse_of_scans trimmed scans ran

theorem conditionText_size : ConditionText ["TO"] True "size > 1" := by
  refine ⟨by decide, [.ofWord ['s', 'i', 'z', 'e'] 0, .ofWord ['>'] 5, .ofWord ['1'] 7], ?_, by simp,
    ?_, fun _ => rfl⟩
  · have last : Token.Scans 7 (['1'] ++ []) [.ofWord ['1'] 7] :=
      .word (by decide) (by simp) (.nil _)
    have all : Token.Scans 0 (['s', 'i', 'z', 'e'] ++ ' ' :: (['>'] ++ ' ' :: ['1'])) _ :=
      .word_blank (by decide) (by decide) (.word_blank (by decide) (by decide) last)
    exact Token.tokenize_eq_ok_iff.mpr all
  · intro before t behind same _
    have member : t ∈ [Token.ofWord ['s', 'i', 'z', 'e'] 0, .ofWord ['>'] 5, .ofWord ['1'] 7] := by
      rw [same]
      simp
    have plain : ∀ u ∈ [Token.ofWord ['s', 'i', 'z', 'e'] 0, .ofWord ['>'] 5, .ofWord ['1'] 7],
        u.isKeyword ["TO"] = false := by
      decide
    simp [TokenReader.endsCondition, plain t member]

theorem parse_rendered_copy :
    parse " Copy FILES  wHere size > 1 to 'b'" =
      .transferAll .copy .file "b" { folder := none, clause := some "size > 1" } := by
  have copy : Token.Spells "COPY" ['C', 'o', 'p', 'y'] := by decide
  have files : Token.Spells "FILES" ['F', 'I', 'L', 'E', 'S'] := by decide
  have filter : Token.Spells "WHERE" ['w', 'H', 'e', 'r', 'e'] := by decide
  have target : Token.Spells "TO" ['t', 'o'] := by decide
  have enclosed : Token.Enclosed '\'' "b".toList := .plain (by decide) (by decide) .nil
  have gap : Text.Gap [' '] := by decide
  have gaps : Text.Gap [' ', ' '] := by decide
  have printable : (Statement.transferAll .copy .file "b"
      { folder := none, clause := some "size > 1" }).Printable := by
    refine ⟨⟨by decide, by decide⟩, ⟨by simp, ?_⟩⟩
    intro c member
    obtain rfl : "size > 1" = c := by simpa using member
    exact conditionText_size
  have rendered : ∃ text, Rendered
      [.keyword "COPY", .keyword "FILES", .keyword "WHERE", .condition "size > 1", .keyword "TO",
        .quoted "b"] text ∧
      [' '] ++ text ++ [] = " Copy FILES  wHere size > 1 to 'b'".toList :=
    ⟨_, .more copy gap (.more files gaps (.more filter gap (.more rfl gap (.more target gap
      (.last ⟨'\'', by decide, enclosed, rfl⟩))))), by decide⟩
  obtain ⟨text, typed, same⟩ := rendered
  have read := parse_rendered (.transferAll .copy .file "b" _) printable typed gap.blanks
    Text.blanks_nil
  rwa [same, String.ofList_toList] at read

end Statement

end FileQuery
