import Mathlib.Data.Fintype.Card
import Mathlib.Data.Fintype.Fin
import Mathlib.Logic.Relation

/-!
# Cycles

Dependencies are taken here as any relation on numbers of which only finitely many have a successor.
A number comes to its turn, after all those before it, exactly if it is accessible; the others lie on
a cycle or behind one.

Principal statements: `exists_behindCycle_before` — whatever is behind a cycle waits for something that
is — and `acc_of_not_behindCycle`: all others come to their turn.
-/

set_option autoImplicit false

namespace FrameGraph

open Relation

variable {R : Nat → Nat → Prop} {c : Nat}

/-- Holds if the number lies on a cycle of the relation, or a path leads to it from one. -/
def BehindCycle (R : Nat → Nat → Prop) (c : Nat) : Prop :=
  ∃ d, TransGen R d d ∧ ReflTransGen R d c

theorem BehindCycle.tail {d : Nat} (hc : BehindCycle R c) (h : R c d) : BehindCycle R d := by
  obtain ⟨start, hcycle, hpath⟩ := hc
  exact ⟨start, hcycle, hpath.tail h⟩

/-- What is on a cycle or behind one has a predecessor that is, too. -/
theorem exists_behindCycle_before (hc : BehindCycle R c) : ∃ p, R p c ∧ BehindCycle R p := by
  obtain ⟨d, hcycle, hpath⟩ := hc
  rcases ReflTransGen.cases_tail hpath with rfl | ⟨p, hdp, hpc⟩
  · -- The number itself is on the cycle, and so is the one before it.
    obtain ⟨p, hcp, hpc⟩ := TransGen.tail'_iff.1 hcycle
    exact ⟨p, hpc, c, hcycle, hcp⟩
  · exact ⟨p, hpc, d, hcycle, hdp⟩

theorem not_behindCycle_of_acc (hacc : Acc R c) : ¬ BehindCycle R c := by
  induction hacc with
  | intro c _ ih =>
      intro hc
      obtain ⟨p, hpc, hp⟩ := exists_behindCycle_before hc
      exact ih p hpc hp

/-- The numbers from which a path leads to `c` are finitely many, and none of them is on a cycle. -/
theorem acc_of_not_behindCycle {bound : Nat} (hbound : ∀ p d, R p d → p < bound)
    (hc : ¬ BehindCycle R c) : Acc R c := by
  let before : Fin bound → Fin bound → Prop := fun a b => TransGen R a b ∧ ReflTransGen R b c
  have htrans : IsTrans (Fin bound) before :=
    ⟨fun _ _ _ hab hbd => ⟨hab.1.trans hbd.1, hbd.2⟩⟩
  have hirrefl : Std.Irrefl before := ⟨fun a ha => hc ⟨a, ha.1, ha.2⟩⟩
  have hwf : WellFounded before := Finite.wellFounded_of_trans_of_irrefl before
  have hall : ∀ a : Fin bound, ReflTransGen R a c → Acc R a := by
    intro a
    induction a using hwf.induction with
    | h a ih =>
        intro hac
        refine Acc.intro _ fun p hpa => ?_
        exact ih ⟨p, hbound p a hpa⟩ ⟨.single hpa, hac⟩ (.head hpa hac)
  exact Acc.intro c fun p hpc => hall ⟨p, hbound p c hpc⟩ (.single hpc)

/-- Without cycles there is nothing behind one. -/
theorem not_behindCycle_of_acyclic (h : ∀ d, ¬ TransGen R d d) : ¬ BehindCycle R c :=
  fun ⟨d, hcycle, _⟩ => h d hcycle

end FrameGraph
