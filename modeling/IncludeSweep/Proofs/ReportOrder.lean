import Mathlib.Order.Defs.LinearOrder
import IncludeSweep.Report

set_option autoImplicit false

/-! # The order of a report

Paths are ordered by their components, and outcomes by path and line. Both comparisons are those of
a total preorder, so a stable sort by them sorts. -/

namespace IncludeSweep

namespace Component

def text : Component → String
  | name s => s
  | _ => ""

theorem order_eq (a b : Component) :
    a.order b = compareLex (compareOn rank) (compareOn text) a b := by
  cases a <;> cases b <;> rfl

instance : Std.TransCmp order := by
  have h : order = compareLex (compareOn rank) (compareOn text) :=
    funext fun a => funext fun b => order_eq a b
  rw [h]
  infer_instance

instance : Std.LawfulEqCmp order where
  compare_self := Std.ReflCmp.compare_self
  eq_of_compare {a b} h := by
    have hparts : a.rank = b.rank ∧ a.text = b.text := by
      simpa [order_eq, compareLex, compareOn] using h
    cases a <;> cases b <;> simp_all [rank, text]

end Component

namespace Path

theorem orderComponents_eq (as bs : List Component) :
    orderComponents as bs = List.compareLex Component.order as bs := by
  induction as generalizing bs with
  | nil => cases bs <;> simp [orderComponents, List.compareLex]
  | cons a as ih =>
    cases bs with
    | nil => simp [orderComponents, List.compareLex]
    | cons b bs =>
      rw [orderComponents, ih, List.compareLex]
      cases a.order b <;> rfl

instance : Std.TransCmp orderComponents := by
  have h : orderComponents = List.compareLex Component.order :=
    funext fun as => funext fun bs => orderComponents_eq as bs
  rw [h]
  infer_instance

instance : Std.TransCmp order where
  eq_swap {p q} := Std.OrientedCmp.eq_swap (a := p.components) (b := q.components)
  isLE_trans {p q r} := Std.TransCmp.isLE_trans (a := p.components) (b := q.components)
    (c := r.components)

theorem order_eq_iff {p q : Path} : p.order q = .eq ↔ p.same q = true := by
  unfold order same
  rw [orderComponents_eq, beq_iff_eq]
  exact Std.LawfulEqCmp.compare_eq_iff_eq

theorem le_total (p q : Path) : p.le q = true ∨ q.le p = true := by
  have hswap : q.order p = (p.order q).swap := Std.OrientedCmp.eq_swap
  unfold le
  rw [hswap, Ordering.isLE_swap]
  cases p.order q <;> simp

theorem le_trans {p q r : Path} (h : p.le q = true) (h' : q.le r = true) : p.le r = true :=
  Std.TransCmp.isLE_trans h h'

end Path

namespace Outcome

def pathOrder (o p : Outcome) : Ordering :=
  o.candidate.path.order p.candidate.path

instance : Std.TransCmp pathOrder where
  eq_swap {o p} := Std.OrientedCmp.eq_swap (a := o.candidate.path) (b := p.candidate.path)
  isLE_trans {o p q} := Std.TransCmp.isLE_trans (a := o.candidate.path) (b := p.candidate.path)
    (c := q.candidate.path)

instance : Std.TransCmp order :=
  inferInstanceAs (Std.TransCmp (compareLex pathOrder (compareOn fun o => o.candidate.line)))

theorem le_total (o p : Outcome) : o.le p = true ∨ p.le o = true := by
  have hswap : p.order o = (o.order p).swap := Std.OrientedCmp.eq_swap
  unfold le
  rw [hswap, Ordering.isLE_swap]
  cases o.order p <;> simp

theorem le_trans {o p q : Outcome} (h : o.le p = true) (h' : p.le q = true) : o.le q = true :=
  Std.TransCmp.isLE_trans h h'

theorem le_iff {o p : Outcome} : o.le p = true ↔
    o.candidate.path.order p.candidate.path = .lt ∨
      o.candidate.path.order p.candidate.path = .eq ∧ o.candidate.line ≤ p.candidate.line := by
  unfold le order
  cases o.candidate.path.order p.candidate.path <;> simp [Nat.isLE_compare]

end Outcome

end IncludeSweep
