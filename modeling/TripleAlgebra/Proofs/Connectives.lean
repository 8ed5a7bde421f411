import Mathlib.Data.List.Fold
import Mathlib.Data.Sign.Defs
import TripleAlgebra.Proofs.BoundRows
import TripleAlgebra.Proofs.Comparison
import TripleAlgebra.Proofs.PreparedExpression

/-! Connectives follow three-valued logic at any depth. What fails is unknown, which lies between
false and true: a disjunction is the greatest of its operands, a conjunction the least, and a
negation turns the order round. -/
namespace TripleAlgebra

namespace Kleene

/-- False is -1, unknown is 0 and true is 1. -/
def degree : Partial Bool → SignType
  | .ok true => 1
  | .ok false => -1
  | .error _ => 0

def ofDegree : SignType → Partial Bool
  | .pos => .ok true
  | .neg => .ok false
  | .zero => .error .failed

@[simp] theorem degree_ofDegree (d : SignType) : degree (ofDegree d) = d := by
  cases d <;> rfl

theorem degree_eq_zero {a : Partial Bool} : degree a = 0 ↔ ¬ ∃ b, a = .ok b := by
  rcases a with ⟨⟩ | _ | _ <;> simp [degree]

theorem or_eq (a b : Partial Bool) : or a b = ofDegree (max (degree a) (degree b)) := by
  rcases a with ⟨⟩ | _ | _ <;> rcases b with ⟨⟩ | _ | _ <;> rfl

theorem and_eq (a b : Partial Bool) : and a b = ofDegree (min (degree a) (degree b)) := by
  rcases a with ⟨⟩ | _ | _ <;> rcases b with ⟨⟩ | _ | _ <;> rfl

theorem not_eq (a : Partial Bool) : not a = ofDegree (-degree a) := by
  rcases a with ⟨⟩ | _ | _ <;> rfl

theorem neg_max (a b : SignType) : -max a b = min (-a) (-b) := by
  decide +revert

theorem neg_min (a b : SignType) : -min a b = max (-a) (-b) := by
  decide +revert

/-- The degree of a disjunction of any length. -/
def greatest (ds : List SignType) : SignType := ds.foldr max ⊥

theorem greatest_cons (d : SignType) (ds : List SignType) :
    greatest (d :: ds) = max d (greatest ds) :=
  rfl

theorem greatest_perm {ds ds' : List SignType} (h : ds.Perm ds') : greatest ds = greatest ds' :=
  h.foldr_eq ⊥

theorem greatest_eq_foldl (d : SignType) (ds : List SignType) :
    greatest (d :: ds) = ds.foldl max d := calc
  greatest (d :: ds) = max (ds.foldl max d) ⊥ := (List.foldl1_eq_foldr1 (f := max)).symm
  _ = ds.foldl max d := max_bot_right _

/-- A disjunction of operands that are all unknown is unknown if there is an operand. -/
theorem greatest_unknown {α : Type} (a : α) (as : List α) :
    greatest ((a :: as).map fun _ => 0) = 0 := by
  induction as generalizing a with
  | nil => rfl
  | cons b as ih => rw [List.map_cons, greatest_cons, ih b, max_self]

end Kleene

namespace Expression
open Kleene

/-- The degree of the effective boolean value. -/
def degree (s : Assignment) (e : Expression) : SignType := Kleene.degree (truth s e)

/-- The term of a degree that a connective has. -/
def verdict (d : SignType) : Partial Term := (ofDegree d).map .boolean

variable {s : Assignment} {e e' x : Expression} {d : SignType} {cs cs' : List Expression}

theorem degree_of_eval (h : eval s e = verdict d) : degree s e = d := by
  rw [degree, truth, h, verdict, termTruth_map_boolean, degree_ofDegree]

/-- The degree is unknown if there is no value or if the value is neither true nor false. -/
theorem degree_eq_zero :
    degree s e = 0 ↔ ¬ ∃ t b, eval s e = .ok t ∧ (Value.ofTerm t).truth = .ok b := by
  rw [degree, Kleene.degree_eq_zero, truth]
  cases eval s e with
  | error e =>
    show (¬ ∃ b, Except.error e = .ok b) ↔ _
    simp
  | ok t =>
    show (¬ ∃ b, (Value.ofTerm t).truth = .ok b) ↔ _
    simp

theorem holds_iff : e.holds s ↔ degree s e = 1 := by
  unfold holds degree
  rcases truth s e with ⟨⟩ | _ | _ <;> simp [Kleene.degree]

theorem eval_not (s : Assignment) (e : Expression) :
    eval s (.unary .not e) = verdict (-degree s e) := by
  rw [eval_unary, applyUnary, not_eq]
  rfl

theorem eval_or (s : Assignment) (l r : Expression) :
    eval s (.binary .or l r) = verdict (max (degree s l) (degree s r)) := by
  rw [eval_binary, applyBinary, or_eq]
  rfl

theorem eval_and (s : Assignment) (l r : Expression) :
    eval s (.binary .and l r) = verdict (min (degree s l) (degree s r)) := by
  rw [eval_binary, applyBinary, and_eq]
  rfl

@[simp] theorem degree_not (s : Assignment) (e : Expression) :
    degree s (.unary .not e) = -degree s e :=
  degree_of_eval (eval_not s e)

@[simp] theorem degree_or (s : Assignment) (l r : Expression) :
    degree s (.binary .or l r) = max (degree s l) (degree s r) :=
  degree_of_eval (eval_or s l r)

@[simp] theorem degree_and (s : Assignment) (l r : Expression) :
    degree s (.binary .and l r) = min (degree s l) (degree s r) :=
  degree_of_eval (eval_and s l r)

/-- Whether two terms are equal, as a degree. -/
theorem degree_equal (s : Assignment) (x c : Expression) :
    degree s (.binary .equal x c) = Kleene.degree (termEqual (eval s x) (eval s c)) := by
  rw [degree, truth, eval_binary, applyBinary_equal, termTruth_map_boolean]

/-- The search for a candidate is the disjunction of all comparisons, whichever of them fail. -/
theorem isMember_eq (needle : Term) (ts : List (Partial Term)) :
    isMember (Value.ofTerm needle) ts =
      ofDegree (greatest (ts.map fun t => Kleene.degree (termEqual (.ok needle) t))) := by
  induction ts with
  | nil => rfl
  | cons t ts ih =>
    have hequal : (t.bind fun t => (Value.ofTerm needle).equal (Value.ofTerm t)) =
        termEqual (.ok needle) t := rfl
    rw [isMember, hequal, ih, List.map_cons, greatest_cons]
    generalize greatest (ts.map _) = d
    rcases termEqual (.ok needle) t with ⟨⟩ | _ | _ <;> cases d <;> rfl

/-- The comparison with each candidate counts as an operand of a disjunction. Without candidates,
the answer would still depend on whether the needle fails. -/
theorem eval_member_of_ne_nil (h : cs ≠ []) : eval s (.member x cs) =
    verdict (greatest (cs.map fun c => degree s (.binary .equal x c))) := by
  simp only [degree_equal]
  rw [eval_member]
  cases hx : eval s x with
  | ok t =>
    have hbind (d : SignType) :
        (do return .boolean (← ofDegree d) : Partial Term) = verdict d := by
      cases d <;> rfl
    show (do return .boolean (← isMember _ _) : Partial Term) = _
    rw [isMember_eq, List.map_map, hbind]
    rfl
  | error e =>
    obtain ⟨c, cs, rfl⟩ := List.exists_cons_of_ne_nil h
    have hunknown (c : Expression) : Kleene.degree (termEqual (.error e) (eval s c)) = 0 := rfl
    simp only [hunknown]
    rw [greatest_unknown]
    rfl

theorem degree_member (h : cs ≠ []) : degree s (.member x cs) =
    greatest (cs.map fun c => degree s (.binary .equal x c)) :=
  degree_of_eval (eval_member_of_ne_nil h)

end Expression

/-- A tree of connectives. Its leaves, and what is looked for among which candidates, are any
expressions, also ones with connectives of their own. There is at least one candidate. -/
inductive Formula
  | leaf (e : Expression)
  | not (f : Formula)
  | or (f g : Formula)
  | and (f g : Formula)
  | member (x c : Expression) (cs : List Expression)

namespace Formula
open Expression

def expression : Formula → Expression
  | leaf e => e
  | not f => .unary .not f.expression
  | or f g => .binary .or f.expression g.expression
  | and f g => .binary .and f.expression g.expression
  | member x c cs => .member x (c :: cs)

/-- The value of the tree in three-valued logic, from the degrees of its leaves. -/
def value (s : Assignment) : Formula → SignType
  | leaf e => e.degree s
  | not f => -f.value s
  | or f g => max (f.value s) (g.value s)
  | and f g => min (f.value s) (g.value s)
  | member x c cs =>
    (cs.map fun d => degree s (.binary .equal x d)).foldl max (degree s (.binary .equal x c))

theorem degree_expression (s : Assignment) (f : Formula) : f.expression.degree s = f.value s := by
  induction f with
  | leaf e => rfl
  | not f ih => rw [expression, degree_not, ih, value]
  | or f g ihf ihg => rw [expression, degree_or, ihf, ihg, value]
  | and f g ihf ihg => rw [expression, degree_and, ihf, ihg, value]
  | member x c cs =>
    rw [expression, degree_member (List.cons_ne_nil c cs), List.map_cons,
      Kleene.greatest_eq_foldl, value]

end Formula

/-- The two connectives that the laws of De Morgan exchange. -/
inductive BinaryOp.Dual : BinaryOp → BinaryOp → Prop
  | or : Dual .or .and
  | and : Dual .and .or

namespace Expression

/-- Operands of connectives are reordered and the laws of De Morgan are applied, anywhere in an
expression. -/
inductive Rearranged : Expression → Expression → Prop
  | refl (e : Expression) : Rearranged e e
  | symm {e e' : Expression} : Rearranged e e' → Rearranged e' e
  | trans {e e' e'' : Expression} : Rearranged e e' → Rearranged e' e'' → Rearranged e e''
  | comm {op op' : BinaryOp} (h : op.Dual op') (l r : Expression) :
    Rearranged (.binary op l r) (.binary op r l)
  | assoc {op op' : BinaryOp} (h : op.Dual op') (l m r : Expression) :
    Rearranged (.binary op (.binary op l m) r) (.binary op l (.binary op m r))
  | candidates (x : Expression) {cs cs' : List Expression} (h : cs.Perm cs') :
    Rearranged (.member x cs) (.member x cs')
  | notBoth {op op' : BinaryOp} (h : op.Dual op') (l r : Expression) :
    Rearranged (.unary .not (.binary op l r)) (.binary op' (.unary .not l) (.unary .not r))
  | bothNot {op op' : BinaryOp} (h : op.Dual op') (l r : Expression) :
    Rearranged (.binary op l r) (.unary .not (.binary op' (.unary .not l) (.unary .not r)))
  -- without the outer negation, a value that is no truth value would become one
  | notNot (e : Expression) :
    Rearranged (.unary .not (.unary .not (.unary .not e))) (.unary .not e)
  | unary (op : UnaryOp) {e e' : Expression} :
    Rearranged e e' → Rearranged (.unary op e) (.unary op e')
  | binary (op : BinaryOp) {l l' r r' : Expression} :
    Rearranged l l' → Rearranged r r' → Rearranged (.binary op l r) (.binary op l' r')
  | needle {x x' : Expression} (cs : List Expression) :
    Rearranged x x' → Rearranged (.member x cs) (.member x' cs)
  | candidate (x : Expression) (before after : List Expression) {c c' : Expression} :
    Rearranged c c' →
      Rearranged (.member x (before ++ c :: after)) (.member x (before ++ c' :: after))
  | conditional {c c' t t' e e' : Expression} :
    Rearranged c c' → Rearranged t t' → Rearranged e e' →
      Rearranged (.conditional c t e) (.conditional c' t' e')
  | coalesce (before after : List Expression) {e e' : Expression} :
    Rearranged e e' →
      Rearranged (.coalesce (before ++ e :: after)) (.coalesce (before ++ e' :: after))
  | call (f : Function) (before after : List Expression) {e e' : Expression} :
    Rearranged e e' →
      Rearranged (.call f (before ++ e :: after)) (.call f (before ++ e' :: after))

/-- What is rearranged keeps its value, also where it fails. -/
theorem Rearranged.eval_eq (h : Rearranged e e') (s : Assignment) : eval s e = eval s e' := by
  induction h with
  | refl => rfl
  | symm _ ih => exact ih.symm
  | trans _ _ ih ih' => exact ih.trans ih'
  | comm h l r =>
    cases h
    · rw [eval_or, eval_or, max_comm]
    · rw [eval_and, eval_and, min_comm]
  | assoc h l m r =>
    cases h
    · rw [eval_or, eval_or, degree_or, degree_or, max_assoc]
    · rw [eval_and, eval_and, degree_and, degree_and, min_assoc]
  | @candidates x cs cs' h =>
    by_cases hcs : cs = []
    · subst hcs
      rw [h.nil_eq]
    · have hcs' : cs' ≠ [] := fun h' => hcs (h' ▸ h).eq_nil
      rw [eval_member_of_ne_nil hcs, eval_member_of_ne_nil hcs', Kleene.greatest_perm (h.map _)]
  | notBoth h l r =>
    cases h
    · rw [eval_not, eval_and, degree_or, degree_not, degree_not, Kleene.neg_max]
    · rw [eval_not, eval_or, degree_and, degree_not, degree_not, Kleene.neg_min]
  | bothNot h l r =>
    cases h
    · rw [eval_not, eval_or, degree_and, degree_not, degree_not, Kleene.neg_min, neg_neg, neg_neg]
    · rw [eval_not, eval_and, degree_or, degree_not, degree_not, Kleene.neg_max, neg_neg, neg_neg]
  | notNot e => rw [eval_not, eval_not, degree_not, degree_not, neg_neg]
  | unary op _ ih => rw [eval_unary, eval_unary, ih]
  | binary op _ _ ihl ihr => rw [eval_binary, eval_binary, ihl, ihr]
  | needle cs _ ih => rw [eval_member, eval_member, ih]
  | candidate x before after _ ih => simp [eval_member, ih]
  | conditional _ _ _ ihc iht ihe => rw [eval_conditional, eval_conditional, ihc, iht, ihe]
  | coalesce before after _ ih => simp [eval_coalesce, ih]
  | call f before after _ ih => simp [eval_call, ih]

theorem Rearranged.holds_eq (h : Rearranged e e') (s : Assignment) : e.holds s = e'.holds s := by
  rw [holds, truth, h.eval_eq, holds, truth]

end Expression

namespace Solutions

/-- A filter keeps the rows that its conditions hold on, however these are written. -/
theorem filter_congr {es es' : List Expression}
    (h : ∀ s, es.all (·.holds s) = es'.all (·.holds s)) (m : Mode) (header : List Variable)
    (s : Solutions) : s.filter m header es = s.filter m header es' := by
  have hkeep (r : Row) : (es.map (PreparedExpression.ofHeader · s.header)).all (·.isTrue r) =
      (es'.map (PreparedExpression.ofHeader · s.header)).all (·.isTrue r) := by
    obtain ⟨values, htrue⟩ := PreparedExpression.exists_all_isTrue s.header r
    rw [htrue, htrue, h]
  unfold filter
  simp only [hkeep]

end Solutions

namespace Plan

theorem dispatch_filter_congr {es es' : List Expression}
    (h : ∀ s, es.all (·.holds s) = es'.all (·.holds s)) (c : Context) (p : Plan) :
    dispatch c (filter p es) = dispatch c (filter p es') := by
  have hevaluate (e : Evaluator) : evaluate c e (filter p es) (fun q _ => dispatch c q) =
      evaluate c e (filter p es') (fun q _ => dispatch c q) := by
    cases e with
    | fixed header => rfl
    | builtin family m =>
      cases family with
      | filter =>
        exact congrArg (dispatch c p >>= ·) (funext (Solutions.filter_congr h m p.vars))
      | _ => rfl
  rw [dispatch, dispatch]
  simp only [hevaluate]
  rfl

/-- Conditions that hold on the same rows make the same filter, also where the store fails. -/
theorem execute_filter_congr {es es' : List Expression}
    (h : ∀ s, es.all (·.holds s) = es'.all (·.holds s)) (c : Context) (p : Plan) :
    (filter p es).execute c = (filter p es').execute c := by
  rw [execute, execute, dispatch_filter_congr h]

end Plan

namespace Expression

/-- A leaf is unknown exactly if its evaluation or its effective boolean value fails. On every row,
an expression has the effective boolean value that three-valued logic gives to its tree of
connectives, and a filter keeps the rows on which this is true. Reordering operands and applying the
laws of De Morgan, at any depth, changes no filter. -/
theorem connectives_three_valued (f : Formula) :
    (∀ s e, (Formula.leaf e).value s = 0 ↔
      ¬ ∃ t b, eval s e = .ok t ∧ (Value.ofTerm t).truth = .ok b) ∧
    (∀ s, Kleene.degree (truth s f.expression) = f.value s) ∧
    (∀ header r, let prepared := PreparedExpression.ofHeader f.expression header
      Kleene.degree (termTruth (prepared.evaluate r)) = f.value (prepared.assignment r)) ∧
    (∀ (s : Store.Contents) (config : Config) (p : Plan), ∃ rows,
      p.collect (s.context config) = .ok rows ∧
      (Plan.filter p [f.expression]).collect (s.context config) =
        .ok (rows.filter fun r => f.value (r.assignment p.vars) = 1)) ∧
    ∀ e, Rearranged f.expression e → ∀ (c : Context) (p : Plan) (before after : List Expression),
      (Plan.filter p (before ++ f.expression :: after)).execute c =
        (Plan.filter p (before ++ e :: after)).execute c := by
  refine ⟨fun s e => degree_eq_zero, f.degree_expression, fun header r => ?_,
    fun s config p => ?_, fun e h c p before after => ?_⟩
  · intro prepared
    rw [PreparedExpression.evaluate_eq]
    exact f.degree_expression (prepared.assignment r)
  · have hc := (s.holds config).toReliable
    refine ⟨_, Plan.collect_eq_rows hc p, ?_⟩
    rw [Plan.collect_eq_rows hc, Plan.rows_filter hc]
    congr 1
    refine List.filter_congr fun r _ => ?_
    rw [List.all_cons, List.all_nil, Bool.and_true, Bool.eq_iff_iff, holds_iff,
      f.degree_expression, decide_eq_true_iff]
  · refine Plan.execute_filter_congr (fun s => ?_) c p
    rw [List.all_append, List.all_append, List.all_cons, List.all_cons, h.holds_eq]

/-- The first operand is unknown and so is the first comparison, but the second one decides. -/
theorem connectives_three_valued_unbound :
    let s : Assignment := Row.assignment [⟨"x"⟩] [some (.iri "b")]
    let f : Formula := .or (.leaf (.var ⟨"v"⟩))
      (.member (.var ⟨"x"⟩) (.var ⟨"y"⟩) [.const (.iri "b")])
    let e : Expression := .unary .not (.binary .and
      (.unary .not (.member (.var ⟨"x"⟩) [.const (.iri "b"), .var ⟨"y"⟩]))
      (.unary .not (.var ⟨"v"⟩)))
    Kleene.degree (truth s f.expression) = 1 ∧ Rearranged f.expression e ∧
      (Plan.filter (Store.edge (.var ⟨"x"⟩) (.var ⟨"z"⟩)) [f.expression]).execute
          (Store.Contents.path.context {}) =
        (Plan.filter (Store.edge (.var ⟨"x"⟩) (.var ⟨"z"⟩)) [e]).execute
          (Store.Contents.path.context {}) := by
  intro s f e
  obtain ⟨-, htruth, -, -, hfilter⟩ := connectives_three_valued f
  have hvalue : f.value s = 1 := by decide
  have hrearranged : Rearranged f.expression e :=
    .trans (.bothNot .or _ _) (.unary .not (.trans (.comm .and _ _)
      (.binary .and (.unary .not (.candidates _ (.swap _ _ _))) (.refl _))))
  exact ⟨(htruth s).trans hvalue, hrearranged, hfilter e hrearranged _ _ [] []⟩

end Expression
end TripleAlgebra
