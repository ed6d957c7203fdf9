import FileQuery.Proofs.Selection
import FileQuery.Proofs.Where.Cuts
import FileQuery.Proofs.Where.Evaluation

/-! # What is reported about a clause

The conditions of a clause are its parts that stand for themselves, through all the parentheses that
may open, in the order they stand in (`strewn_leaves`). Making a query reports one error for each of
them that cannot count and makes a predicate of each other one; a record is tested by the predicates
that are reached, each of which reports at most one error and then does not hold
(`reports_of_query`). -/
set_option autoImplicit false
namespace FileQuery.Where

/-! ## Texts within a text -/

/-- Texts that stand in a text one behind the other, with anything between and around them. -/
inductive Strewn : List (List Char) → List Char → Prop
  | none (s : List Char) : Strewn [] s
  | more {t behind : List Char} {ts : List (List Char)} (before : List Char)
      (rest : Strewn ts behind) : Strewn (t :: ts) (before ++ (t ++ behind))

namespace Strewn

variable {ts us : List (List Char)} {s t : List Char}

theorem append_left (strewn : Strewn ts s) (before : List Char) : Strewn ts (before ++ s) := by
  cases strewn with
  | none => exact .none _
  | more first rest =>
      rw [← List.append_assoc]
      exact .more _ rest

theorem append (left : Strewn ts s) (right : Strewn us t) : Strewn (ts ++ us) (s ++ t) := by
  induction left with
  | none s => exact right.append_left s
  | more before _ ih =>
      rw [List.append_assoc, List.append_assoc, List.cons_append]
      exact .more before ih

theorem append_right (strewn : Strewn ts s) (behind : List Char) : Strewn ts (s ++ behind) := by
  simpa using strewn.append (.none behind)

theorem whole (t : List Char) : Strewn [t] t := by
  simpa using Strewn.more (t := t) [] (.none [])

theorem sublist (strewn : Strewn ts s) (part : us.Sublist ts) : Strewn us s := by
  induction strewn generalizing us with
  | none s =>
      rw [List.sublist_nil.mp part]
      exact .none s
  | @more t behind ts before _ ih =>
      cases part with
      | cons _ part => exact ((ih part).append_left t).append_left before
      | cons_cons _ part => exact .more before (ih part)

theorem flatMap {f : List Char → List (List Char)} (strewn : Strewn ts s)
    (within : ∀ t ∈ ts, Strewn (f t) t) : Strewn (ts.flatMap f) s := by
  induction strewn with
  | none s => exact .none s
  | more before _ ih =>
      rw [List.forall_mem_cons] at within
      rw [List.flatMap_cons]
      exact (within.1.append (ih within.2)).append_left before

end Strewn

theorem Strewn.of_trim {ts : List (List Char)} {s : List Char} (strewn : Strewn ts (Text.trim s)) :
    Strewn ts s := by
  obtain ⟨before, behind, _, _, same⟩ := Text.exists_trim s
  rw [same]
  exact (strewn.append_right behind).append_left before

theorem Strewn.of_inner {ts : List (List Char)} {text : List Char} (strewn : Strewn ts (inner text)) :
    Strewn ts text := by
  obtain _ | ⟨c, r⟩ := text
  · exact strewn
  · rw [inner, List.tail_cons] at strewn
    rcases List.eq_nil_or_concat r with rfl | ⟨front, d, rfl⟩
    · exact strewn.append_left [c]
    · rw [List.concat_eq_append, List.dropLast_concat] at strewn
      rw [List.concat_eq_append]
      exact (strewn.append_right [d]).append_left [c]

theorem strewn_splitOnP (p : Piece → Bool) (ps : List Piece) :
    Strewn ((ps.splitOnP p).map stretch) (ps.flatMap Piece.text) := by
  induction ps using splitOnP_induction (p := p) with
  | whole ps free =>
      rw [List.splitOnP_eq_singleton free]
      exact (Strewn.whole _).of_trim
  | cut before x behind free own ih =>
      rw [List.splitOnP_append_cons _ _ own, List.splitOnP_eq_singleton free, List.singleton_append,
        List.map_cons, List.flatMap_append, List.flatMap_cons]
      exact (Strewn.whole _).of_trim.append (ih.append_left x.text)

theorem strewn_splitAtKeyword (keyword : String) (s : List Char) :
    Strewn (splitAtKeyword keyword s) s := by
  have cut := strewn_splitOnP (Piece.isKeyword keyword) (Piece.scan {} 0 s)
  rwa [Piece.text_scan, ← splitAtKeyword_eq] at cut

theorem strewn_parseClause (clause : List Char) : Strewn (parseClause clause).flatten clause := by
  have conditions (g : List Char) : Strewn (conditionsOf g) g :=
    (strewn_splitAtKeyword "AND" g).sublist List.filter_sublist
  have all := (strewn_splitAtKeyword "OR" (Text.trim clause)).flatMap fun g _ => conditions g
  apply Strewn.of_trim
  rw [parseClause_eq]
  cases groups : ((splitAtKeyword "OR" (Text.trim clause)).map conditionsOf).filter
      (fun g => !g.isEmpty) with
  | nil => exact .whole _
  | cons g gs =>
      simp only
      rw [← groups, List.flatten_filter_not_isEmpty, ← List.flatMap_def]
      exact all

/-! ## The conditions of a clause -/

/-- The conditions of a part with so many levels of parentheses left, from left to right. A group below
the last level stands for itself. -/
def leavesOf : Nat → List Char → List (List Char)
  | 0, text => [text]
  | n + 1, text =>
    if isWrapped text then (parseClause (inner text)).flatten.flatMap (leavesOf n) else [text]

/-- All conditions of a clause, from left to right. -/
def leaves (levels : Nat) (clause : List Char) : List (List Char) :=
  (parseClause clause).flatten.flatMap (leavesOf levels)

theorem strewn_leavesOf (levels : Nat) (text : List Char) : Strewn (leavesOf levels text) text := by
  induction levels generalizing text with
  | zero => exact .whole text
  | succ n ih =>
      rw [leavesOf]
      split
      · exact ((strewn_parseClause (inner text)).flatMap fun t _ => ih t).of_inner
      · exact .whole text

theorem strewn_leaves (levels : Nat) (clause : List Char) : Strewn (leaves levels clause) clause :=
  (strewn_parseClause clause).flatMap fun t _ => strewn_leavesOf levels t

/-- Why a condition cannot count, if it cannot: a group is too deep, and any other text cannot be parsed
or has a literal that does not fit. -/
def fault? (text : List Char) : Option ConditionError :=
  if isWrapped text then some ⟨String.ofList text, .tooDeep⟩
  else match Condition.parse text with
    | .error e => some e
    | .ok c => match c.toTest with
      | .error reason => some ⟨c.text, reason⟩
      | .ok _ => none

/-- The predicate of a condition that can count. -/
def predicate? (text : List Char) : Option Predicate :=
  if isWrapped text then none else (Predicate.ofText text).toOption

mutual

/-- The predicates of a part, from left to right. -/
def Node.predicates : Node → List Predicate
  | .unreadable => []
  | .leaf p => [p]
  | .group groups => predicatesIn groups

def predicatesIn : List (List Node) → List Predicate
  | [] => []
  | g :: gs => predicatesOf g ++ predicatesIn gs

def predicatesOf : List Node → List Predicate
  | [] => []
  | n :: ns => n.predicates ++ predicatesOf ns

end

theorem predicatesOf_eq (ns : List Node) : predicatesOf ns = ns.flatMap Node.predicates := by
  induction ns with
  | nil => rfl
  | cons n ns ih => rw [predicatesOf, List.flatMap_cons, ih]

theorem predicatesIn_eq (gs : List (List Node)) :
    predicatesIn gs = gs.flatten.flatMap Node.predicates := by
  induction gs with
  | nil => rfl
  | cons g gs ih => rw [predicatesIn, List.flatten_cons, List.flatMap_append, ih, predicatesOf_eq]

namespace Reported

variable {α β : Type} (f : α → Reported β)

theorem snd_all (xs : List α) : (all f xs).2 = xs.flatMap fun x => (f x).2 := by
  induction xs with
  | nil => rfl
  | cons x xs ih => rw [all, List.flatMap_cons, ← ih]

theorem snd_all_all (gs : List (List α)) :
    (all (all f) gs).2 = gs.flatten.flatMap fun x => (f x).2 := by
  rw [snd_all, ← List.flatMap_id, List.flatMap_assoc]
  simp only [snd_all, id]

theorem flatten_fst_all_all (gs : List (List α)) :
    (all (all f) gs).1.flatten = gs.flatten.map fun x => (f x).1 := by
  rw [fst_all, List.map_flatten]
  simp only [fst_all]

end Reported

/-- What is reported about the parts of a clause, and the predicates in them, if each part is known. -/
theorem all_parts {levels : Nat} (clause : List Char)
    (each : ∀ text, (Node.ofText levels text).2 = (leavesOf levels text).filterMap fault? ∧
      (Node.ofText levels text).1.predicates = (leavesOf levels text).filterMap predicate?) :
    (Reported.all (Reported.all (Node.ofText levels)) (parseClause clause)).2 =
        (leaves levels clause).filterMap fault? ∧
      predicatesIn (Reported.all (Reported.all (Node.ofText levels)) (parseClause clause)).1 =
        (leaves levels clause).filterMap predicate? := by
  constructor
  · simp only [Reported.snd_all_all, leaves, List.filterMap_flatMap, (each _).1]
  · simp only [predicatesIn_eq, Reported.flatten_fst_all_all, List.flatMap_map, leaves,
      List.filterMap_flatMap, (each _).2]

theorem condition_cases (text : List Char) :
    (∃ p, predicate? text = some p ∧ fault? text = none ∧ isWrapped text = false ∧
      Predicate.ofText text = .ok p) ∨
    ∃ e, predicate? text = none ∧ fault? text = some e ∧
      (isWrapped text = true ∧ e = ⟨String.ofList text, .tooDeep⟩ ∨
        isWrapped text = false ∧ Predicate.ofText text = .error e) := by
  cases wrapped : isWrapped text with
  | true => exact .inr ⟨_, by simp [predicate?, wrapped], by simp [fault?, wrapped], .inl ⟨rfl, rfl⟩⟩
  | false =>
      rw [predicate?, fault?, wrapped, Predicate.ofText]
      cases Condition.parse text with
      | error e => exact .inr ⟨e, rfl, rfl, .inr ⟨rfl, rfl⟩⟩
      | ok c =>
          simp only [bind, Except.bind]
          cases c.toTest with
          | error reason => exact .inr ⟨_, rfl, rfl, .inr ⟨trivial, rfl⟩⟩
          | ok test => exact .inl ⟨_, rfl, rfl, trivial, rfl⟩

/-- A part that stands for itself is a predicate with nothing reported, or is not read for the reason
that is reported. -/
theorem ofText_leaf {levels : Nat} {text : List Char} (single : isWrapped text = true → levels = 0) :
    (Node.ofText levels text).2 = [text].filterMap fault? ∧
      (Node.ofText levels text).1.predicates = [text].filterMap predicate? := by
  rw [Node.ofText.eq_def]
  rcases condition_cases text with
    ⟨p, predicate, fault, plain, read⟩ | ⟨e, predicate, fault, ⟨wrapped, rfl⟩ | ⟨plain, read⟩⟩
  · simp [predicate, fault, plain, read, Node.predicates]
  · obtain rfl := single wrapped
    simp [predicate, fault, wrapped, Node.predicates]
  · simp [predicate, fault, plain, read, Node.predicates]

theorem ofText_spec (levels : Nat) (text : List Char) :
    (Node.ofText levels text).2 = (leavesOf levels text).filterMap fault? ∧
      (Node.ofText levels text).1.predicates = (leavesOf levels text).filterMap predicate? := by
  induction levels generalizing text with
  | zero => exact ofText_leaf fun _ => rfl
  | succ n ih =>
      rw [leavesOf]
      split
      · next wrapped =>
          rw [Node.ofText.eq_def, if_pos wrapped]
          exact all_parts (inner text) ih
      · next single => exact ofText_leaf fun wrapped => absurd wrapped single

/-! ## Testing a record -/

/-- Why a predicate cannot be tested on a record, if it cannot. -/
def Predicate.fault? (contents : Contents) (r : Record) (p : Predicate) : Option ConditionError :=
  match p.test? contents r with
  | .ok _ => none
  | .error reason => some ⟨p.condition.text, reason⟩

section Record
variable (contents : Contents) (r : Record)

mutual

/-- The predicates of a part that a record is tested by, from left to right: of the conjunctions of a
group those of each one up to the first that holds, and of the parts of a conjunction those of each one
up to the first that does not. -/
def Node.reached : Node → List Predicate
  | .unreadable => []
  | .leaf p => [p]
  | .group groups => reachedIn groups

def reachedIn : List (List Node) → List Predicate
  | [] => []
  | g :: gs => reachedOf g ++ if (allHold contents r g).1 then [] else reachedIn gs

def reachedOf : List Node → List Predicate
  | [] => []
  | n :: ns => n.reached ++ if (n.holds contents r).1 then reachedOf ns else []

end

theorem Predicate.holds_of_fault {p : Predicate} {e : ConditionError}
    (fault : p.fault? contents r = some e) : p.holds contents r = (false, [e]) := by
  rw [Predicate.fault?] at fault
  rw [Predicate.holds]
  cases tested : p.test? contents r with
  | ok b => simp [tested] at fault
  | error reason =>
      rw [tested] at fault
      obtain rfl := Option.some.inj fault
      rfl

theorem Predicate.snd_holds (p : Predicate) :
    (p.holds contents r).2 = (p.fault? contents r).toList := by
  rw [Predicate.fault?, Predicate.holds]
  cases p.test? contents r <;> rfl

mutual

/-- What is reported is what the predicates that are reached report, one at most each. -/
theorem Node.snd_holds : ∀ n : Node,
    (n.holds contents r).2 = (n.reached contents r).filterMap (Predicate.fault? contents r)
  | .unreadable => by
      rw [Node.holds, Node.reached]
      rfl
  | .leaf p => by
      rw [Node.holds, Node.reached, p.snd_holds]
      cases fault : p.fault? contents r <;> simp [fault]
  | .group groups => by
      rw [Node.holds, Node.reached]
      exact snd_anyHolds groups

theorem snd_anyHolds : ∀ gs : List (List Node),
    (anyHolds contents r gs).2 =
      (reachedIn contents r gs).filterMap (Predicate.fault? contents r)
  | [] => by
      rw [anyHolds, reachedIn]
      rfl
  | g :: gs => by
      have here := snd_allHold g
      have rest := snd_anyHolds gs
      rw [anyHolds, reachedIn, List.filterMap_append, ← here]
      split
      · next es held => simp [held]
      · next es failed => simp [failed, rest]

theorem snd_allHold : ∀ ns : List Node,
    (allHold contents r ns).2 = (reachedOf contents r ns).filterMap (Predicate.fault? contents r)
  | [] => by
      rw [allHold, reachedOf]
      rfl
  | n :: ns => by
      have here := n.snd_holds
      have rest := snd_allHold ns
      rw [allHold, reachedOf, List.filterMap_append, ← here]
      split
      · next es failed => simp [failed]
      · next es held => simp [held, rest]

end

mutual

theorem Node.sublist_reached : ∀ n : Node, (n.reached contents r).Sublist n.predicates
  | .unreadable => by
      rw [Node.reached]
      exact List.nil_sublist _
  | .leaf p => by
      rw [Node.reached, Node.predicates]
  | .group groups => by
      rw [Node.reached, Node.predicates]
      exact sublist_reachedIn groups

theorem sublist_reachedIn : ∀ gs : List (List Node),
    (reachedIn contents r gs).Sublist (predicatesIn gs)
  | [] => by
      rw [reachedIn]
      exact List.nil_sublist _
  | g :: gs => by
      rw [reachedIn, predicatesIn]
      refine (sublist_reachedOf g).append ?_
      split
      · exact List.nil_sublist _
      · exact sublist_reachedIn gs

theorem sublist_reachedOf : ∀ ns : List Node,
    (reachedOf contents r ns).Sublist (predicatesOf ns)
  | [] => by
      rw [reachedOf]
      exact List.nil_sublist _
  | n :: ns => by
      rw [reachedOf, predicatesOf]
      refine n.sublist_reached.append ?_
      split
      · exact sublist_reachedOf ns
      · exact List.nil_sublist _

end

end Record

/-! ## Reasons -/

/-- Whether a reason is told by the text of a condition alone, whatever the record is. -/
def Reason.ofCondition : Reason → Bool
  | .noContent | .unreadable _ _ | .failed _ => false
  | _ => true

theorem ofCondition_of_parse {text : List Char} {e : ConditionError}
    (failed : Condition.parse text = .error e) : e.reason.ofCondition = true := by
  rw [Condition.parse] at failed
  cases cut : Condition.cut? (Text.trim text) with
  | none =>
      rw [cut] at failed
      cases failed
      rfl
  | some parts =>
      obtain ⟨label, operator, operand⟩ := parts
      simp only [cut] at failed
      split at failed
      · cases failed
        rfl
      · split at failed
        · cases failed
        · cases failed
          rfl

theorem ofCondition_of_toTest {c : Condition} {reason : Reason} (failed : c.toTest = .error reason) :
    reason.ofCondition = true := by
  rw [Condition.toTest] at failed
  repeat' split at failed
  all_goals cases failed <;> rfl

theorem ofCondition_of_fault? {text : List Char} {e : ConditionError} (fault : fault? text = some e) :
    e.reason.ofCondition = true := by
  rw [fault?] at fault
  split at fault
  · obtain rfl := Option.some.inj fault
    rfl
  · split at fault
    · next failed =>
        obtain rfl := Option.some.inj fault
        exact ofCondition_of_parse failed
    · split at fault
      · next failed =>
          obtain rfl := Option.some.inj fault
          exact ofCondition_of_toTest failed
      · exact absurd fault (by simp)

theorem ofCondition_of_testContent {contents : Contents} {pattern : List Char} {r : Record}
    {reason : Reason} (failed : Predicate.testContent contents pattern r = .error reason) :
    reason.ofCondition = false := by
  rw [Predicate.testContent] at failed
  repeat' split at failed
  all_goals cases failed <;> rfl

theorem ofCondition_of_test? {p : Predicate} {contents : Contents} {r : Record} {reason : Reason}
    (failed : p.test? contents r = .error reason) : reason.ofCondition = false := by
  rw [Predicate.test?] at failed
  split at failed
  case h_2 => exact ofCondition_of_testContent failed
  all_goals cases failed

theorem Predicate.ofCondition_of_fault? {p : Predicate} {contents : Contents} {r : Record}
    {e : ConditionError} (fault : p.fault? contents r = some e) : e.reason.ofCondition = false := by
  rw [Predicate.fault?] at fault
  cases tested : p.test? contents r with
  | ok b => simp [tested] at fault
  | error reason =>
      rw [tested] at fault
      obtain rfl := Option.some.inj fault
      exact ofCondition_of_test? tested

/-! ## Queries -/

namespace Query

variable (q : Query) (contents : Contents)

/-- The predicates of a query, from left to right. -/
def predicates : List Predicate := predicatesIn q.groups

/-- The predicates that a record is tested by, from left to right. -/
def reached (r : Record) : List Predicate := reachedIn contents r q.groups

end Query

theorem ofClauseAt_spec (depth : Int) (clause : List Char) :
    (Query.ofClauseAt depth clause).2 =
        (leaves (maxNesting - depth).toNat clause).filterMap fault? ∧
      (Query.ofClauseAt depth clause).1.predicates =
        (leaves (maxNesting - depth).toNat clause).filterMap predicate? :=
  all_parts clause (ofText_spec _)

theorem Query.filter_reports (q : Query) (contents : Contents) (rs : List Record) :
    q.filter contents rs = (rs.filter fun r => (q.holds contents r).1, rs.flatMap fun r =>
      (q.reached contents r).filterMap (Predicate.fault? contents r)) := by
  have each (r : Record) : (q.holds contents r).2 =
      (q.reached contents r).filterMap (Predicate.fault? contents r) :=
    snd_anyHolds contents r q.groups
  simp only [Query.filter_eq, each]

/-- A selection by a clause reports what is reported when the query is made, and then what it reports of
the records. -/
theorem select_eq {clause : List Char} (some : clause ≠ []) (contents : Contents) (rs : List Record) :
    select contents (.some (String.ofList clause)) none rs =
      .ok (((Query.ofClauseAt 0 clause).1.filter contents rs).1, (Query.ofClauseAt 0 clause).2 ++
        ((Query.ofClauseAt 0 clause).1.filter contents rs).2) := by
  have text : String.ofList clause ≠ "" := by simpa using some
  have nonempty : (String.ofList clause).isEmpty = false := by simpa using text
  rw [select_none, reported]
  simp [nonempty, Query.ofClause]

/-- Of each condition of a clause that cannot count one error is reported when the query is made, from
left to right and nothing else, and every other condition is a predicate of the query. A record is
tested by some of these, from left to right: each reports one error at most, and then it does not hold.
A query reports this for record after record, none of it being what was reported when it was made, and
a selection reports first the one and then the other. -/
theorem reports_of_query (depth : Int) (clause : List Char) (contents : Contents) (rs : List Record) :
    ∃ q errors reports,
      Query.ofClauseAt depth clause = (q, errors) ∧
      q.filter contents rs = (rs.filter fun r => (q.holds contents r).1, reports) ∧
      Strewn (leaves (maxNesting - depth).toNat clause) clause ∧
      errors = (leaves (maxNesting - depth).toNat clause).filterMap fault? ∧
      q.predicates = (leaves (maxNesting - depth).toNat clause).filterMap predicate? ∧
      (∀ text, (fault? text).isSome = (predicate? text).isNone) ∧
      reports = rs.flatMap (fun r =>
        (q.reached contents r).filterMap (Predicate.fault? contents r)) ∧
      (∀ r, (q.reached contents r).Sublist q.predicates) ∧
      (∀ r (p : Predicate) e, p.fault? contents r = some e → p.holds contents r = (false, [e])) ∧
      (∀ e ∈ errors, e ∉ reports) ∧
      (depth = 0 → clause ≠ [] →
        select contents (some (String.ofList clause)) none rs =
          .ok (rs.filter fun r => (q.holds contents r).1, errors ++ reports)) := by
  obtain ⟨errors, predicates⟩ := ofClauseAt_spec depth clause
  have filtered := (Query.ofClauseAt depth clause).1.filter_reports contents rs
  refine ⟨(Query.ofClauseAt depth clause).1, (Query.ofClauseAt depth clause).2, _, rfl, filtered,
    strewn_leaves _ clause, errors, predicates, fun text => ?_, rfl,
    fun r => sublist_reachedIn contents r _, ?_, ?_, ?_⟩
  · rcases condition_cases text with ⟨p, predicate, fault, _⟩ | ⟨e, predicate, fault, _⟩
    · rw [predicate, fault]
      rfl
    · rw [predicate, fault]
      rfl
  · exact fun r p e fault => Predicate.holds_of_fault contents r fault
  · intro e early late
    rw [errors] at early
    obtain ⟨text, _, fault⟩ := List.mem_filterMap.mp early
    obtain ⟨r, _, told⟩ := List.mem_flatMap.mp late
    obtain ⟨p, _, fault'⟩ := List.mem_filterMap.mp told
    have no := Predicate.ofCondition_of_fault? fault'
    rw [ofCondition_of_fault? fault] at no
    cases no
  · rintro rfl some
    rw [select_eq some, filtered]

end FileQuery.Where
