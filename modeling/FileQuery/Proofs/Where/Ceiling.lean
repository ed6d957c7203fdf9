import FileQuery.Execution.Folder
import FileQuery.Proofs.Where.Reports

/-! # What conditions on content may look at

A condition on content looks into a file up to the limit and into nothing else. So two readers that
agree on such files make a query keep the same records and report the same errors, whatever they do on
folders and on files beyond the limit (`ceiling_bars_contents`); and what a statement selects depends on
no other content of the store (`select_of_same_texts`). -/
set_option autoImplicit false
namespace FileQuery.Where

/-- Why a condition on the content of a record cannot be tested when the read fails. -/
def ReadFault.reason (r : Record) : ReadFault → Reason
  | .unreadable cause => .unreadable r.name cause
  | .failed cause => .failed cause

/-- What a condition on content answers of a file that was read. -/
def answerOfRead (c : Condition) (r : Record) : Except ReadFault String → Reported Bool
  | .ok text => (matchesLike c.literal.toList text.toList, [])
  | .error f => (false, [⟨c.text, f.reason r⟩])

/-! ## Conditions on content -/

theorem Predicate.test_of_content {text : List Char} {p : Predicate}
    (read : Predicate.ofText text = .ok p) (content : p.condition.subject = .content) :
    p.test = .contentLike p.condition.literal.toList := by
  obtain ⟨parsed, tested⟩ := Predicate.ofText_eq_ok_iff.mp read
  have allowed := Condition.allows_of_parse parsed
  obtain ⟨⟨subject, operator, literal⟩, test⟩ := p
  obtain rfl : subject = .content := content
  cases operator with
  | like => exact (Except.ok.inj tested).symm
  | compare c => cases allowed

theorem Query.content_of_mem {depth : Int} {clause : List Char} {p : Predicate}
    (member : p ∈ (Query.ofClauseAt depth clause).1.predicates)
    (content : p.condition.subject = .content) :
    p.test = .contentLike p.condition.literal.toList := by
  rw [(ofClauseAt_spec depth clause).2] at member
  obtain ⟨text, _, made⟩ := List.mem_filterMap.mp member
  rcases condition_cases text with ⟨q, predicate, _, _, read⟩ | ⟨e, predicate, _⟩
  · obtain rfl := Option.some.inj (predicate.symm.trans made)
    exact Predicate.test_of_content read content
  · rw [predicate] at made
    cases made

/-! ## One record -/

/-- Whether no predicate tells two views of the contents apart by a record. -/
def Contents.Alike (contents contents' : Contents) (r : Record) : Prop :=
  ∀ p : Predicate, p.holds contents r = p.holds contents' r

section Record
variable {limit : Int} {read read' : String → Except ReadFault String} {pattern : List Char}
  {r : Record}

theorem Predicate.testContent_of_barred (barred : r.isFolder = true ∨ limit < r.size) :
    Predicate.testContent ⟨.ok limit, some read⟩ pattern r = .ok false := by
  rw [Predicate.testContent]
  rcases barred with folder | large
  · rw [if_pos folder]
  · split
    · rfl
    · exact if_pos large

theorem Predicate.testContent_of_open (file : r.isFolder = false) (small : r.size ≤ limit) :
    Predicate.testContent ⟨.ok limit, some read⟩ pattern r =
      match read r.path with
      | .ok text => .ok (matchesLike pattern text.toList)
      | .error f => .error (f.reason r) := by
  rw [Predicate.testContent, if_neg (by simp [file])]
  dsimp only
  rw [if_neg (Int.not_lt.mpr small)]
  rcases read r.path with (_ | _) | _ <;> rfl

/-- A test has the same result for two readers that agree on a record if it may be looked into. -/
theorem alike_of_agree
    (agree : r.isFolder = false → r.size ≤ limit → read r.path = read' r.path) :
    Contents.Alike ⟨.ok limit, some read⟩ ⟨.ok limit, some read'⟩ r := by
  intro p
  have same : p.test? ⟨.ok limit, some read⟩ r = p.test? ⟨.ok limit, some read'⟩ r := by
    rw [Predicate.test?, Predicate.test?]
    split
    case h_2 pattern _ =>
      by_cases barred : r.isFolder = true ∨ limit < r.size
      · rw [Predicate.testContent_of_barred barred, Predicate.testContent_of_barred barred]
      · obtain ⟨file, small⟩ := not_or.mp barred
        have file := Bool.eq_false_iff.mpr file
        have small := Int.not_lt.mp small
        rw [Predicate.testContent_of_open file small, Predicate.testContent_of_open file small,
          agree file small]
    all_goals rfl
  rw [Predicate.holds, Predicate.holds, same]

end Record

/-! ## Queries -/

section Nodes
variable {contents contents' : Contents} {r : Record}

mutual

theorem Node.holds_congr (alike : contents.Alike contents' r) : ∀ n : Node,
    n.holds contents r = n.holds contents' r
  | .unreadable => by rw [Node.holds, Node.holds]
  | .leaf p => by rw [Node.holds, Node.holds, alike p]
  | .group groups => by rw [Node.holds, Node.holds, anyHolds_congr alike groups]

theorem anyHolds_congr (alike : contents.Alike contents' r) : ∀ gs : List (List Node),
    anyHolds contents r gs = anyHolds contents' r gs
  | [] => by rw [anyHolds, anyHolds]
  | g :: gs => by rw [anyHolds, anyHolds, allHold_congr alike g, anyHolds_congr alike gs]

theorem allHold_congr (alike : contents.Alike contents' r) : ∀ ns : List Node,
    allHold contents r ns = allHold contents' r ns
  | [] => by rw [allHold, allHold]
  | n :: ns => by rw [allHold, allHold, n.holds_congr alike, allHold_congr alike ns]

end

end Nodes

theorem Query.filter_congr (q : Query) {contents contents' : Contents} {records : List Record}
    (alike : ∀ r ∈ records, contents.Alike contents' r) :
    q.filter contents records = q.filter contents' records := by
  induction records with
  | nil => rfl
  | cons r rs ih =>
      rw [List.forall_mem_cons] at alike
      have here : q.holds contents r = q.holds contents' r := anyHolds_congr alike.1 q.groups
      rw [Query.filter, Query.filter, here, ih alike.2]

theorem Query.filter_of_agree (q : Query) {limit : Int}
    {read read' : String → Except ReadFault String} {records : List Record}
    (agree : ∀ r ∈ records, r.isFolder = false → r.size ≤ limit → read r.path = read' r.path) :
    q.filter ⟨.ok limit, some read⟩ records = q.filter ⟨.ok limit, some read'⟩ records :=
  q.filter_congr fun r member => alike_of_agree (agree r member)

/-- Readers that agree on the files up to the limit make a query of any clause keep the same records
and report the same errors. A condition on content, at any level of parentheses, is false of folders and
of files beyond the limit with nothing reported, whatever the reader does on them; of a file up to the
limit it answers what is read. -/
theorem ceiling_bars_contents (depth : Int) (clause : List Char) (limit : Int)
    {read read' : String → Except ReadFault String} {records : List Record}
    (agree : ∀ r ∈ records, r.isFolder = false → r.size ≤ limit → read r.path = read' r.path) :
    ∃ q errors kept reports,
      Query.ofClauseAt depth clause = (q, errors) ∧
      q.filter ⟨.ok limit, some read⟩ records = (kept, reports) ∧
      q.filter ⟨.ok limit, some read'⟩ records = (kept, reports) ∧
      ∀ p ∈ q.predicates, p.condition.subject = .content → ∀ r,
        (r.isFolder = true ∨ limit < r.size →
          p.holds ⟨.ok limit, some read⟩ r = (false, [])) ∧
        (r.isFolder = false → r.size ≤ limit →
          p.holds ⟨.ok limit, some read⟩ r = answerOfRead p.condition r (read r.path)) := by
  refine ⟨_, _, _, _, rfl, rfl, (Query.filter_of_agree _ agree).symm, ?_⟩
  intro p member content r
  have test := Query.content_of_mem member content
  constructor
  · intro barred
    rw [Predicate.holds, Predicate.test?, test]
    dsimp only
    rw [Predicate.testContent_of_barred barred]
  · intro file small
    rw [Predicate.holds, Predicate.test?, test]
    dsimp only
    rw [Predicate.testContent_of_open file small]
    cases read r.path <;> rfl

/-- A folder, a file beyond a limit of three and one within it. -/
def threeSizes : List Record :=
  [{ name := "keys", path := "/keys", kind := .folder }, { name := "large", path := "/large", size := 9 },
    { name := "small", path := "/small", size := 3 }]

/-- A reader that fails on all but the file within the limit, and one that fails on nothing. -/
def failsBeyond (path : String) : Except ReadFault String :=
  if path = "/small" then .ok "a key" else .error (.failed "")

def neverFails (_ : String) : Except ReadFault String := .ok "a key"

theorem ceiling_bars_large :
    ∃ q errors, Query.ofClause "(content LIKE \"%key%\") OR name LIKE \"K%\"" = (q, errors) ∧
      q.filter ⟨.ok 3, some failsBeyond⟩ threeSizes = (threeSizes.eraseIdx 1, []) := by
  have agree : ∀ r ∈ threeSizes, r.isFolder = false → r.size ≤ 3 →
      failsBeyond r.path = neverFails r.path := by
    decide +kernel
  obtain ⟨q, errors, kept, reports, made, failing, reading, _⟩ := ceiling_bars_contents 0
    "(content LIKE \"%key%\") OR name LIKE \"K%\"".toList 3 agree
  have known : (Query.ofClause "(content LIKE \"%key%\") OR name LIKE \"K%\"").1.filter
      ⟨.ok 3, some neverFails⟩ threeSizes = (threeSizes.eraseIdx 1, []) := by
    decide +kernel
  rw [Query.ofClause, made] at known
  exact ⟨q, errors, made, failing.trans (reading.symm.trans known)⟩

/-! ## Selections from the store -/

/-- What a clause selects depends on no content of the store but that of the files up to the limit. -/
theorem select_of_same_texts {settings : Settings} {limit : Int}
    (limited : settings.contentLimit = .ok limit) {s s' : Store} {records : List Record}
    (same : ∀ r ∈ records, r.isFolder = false → r.size ≤ limit →
      s.readText r.path settings.encoding = s'.readText r.path settings.encoding)
    (clause : Option String) (order : Option SortSpec) :
    select (Action.contents settings s) clause order records =
      select (Action.contents settings s') clause order records := by
  have kept : reported (Action.contents settings s) clause records =
      reported (Action.contents settings s') clause records := by
    cases clause with
    | none => rfl
    | some text =>
        have filtered (q : Query) : q.filter (Action.contents settings s) records =
            q.filter (Action.contents settings s') records := by
          rw [Action.contents, Action.contents, limited]
          refine q.filter_of_agree fun r member file small => ?_
          rw [same r member file small]
        simp only [reported, filtered]
  cases order with
  | none => rw [select_none, select_none, kept]
  | some spec => rw [select_some, select_some, kept]

end FileQuery.Where
