/-!
Half-open ranges of byte offsets.
-/

namespace HclEdit

structure Span where
  start : Nat
  stop : Nat
deriving DecidableEq, Inhabited, Repr

namespace Span

def Covers (span : Span) (offset : Nat) : Prop :=
  span.start ≤ offset ∧ offset < span.stop

instance (span : Span) (offset : Nat) : Decidable (span.Covers offset) :=
  inferInstanceAs (Decidable (_ ∧ _))

def Within (inner outer : Span) : Prop :=
  outer.start ≤ inner.start ∧ inner.stop ≤ outer.stop

instance (inner outer : Span) : Decidable (inner.Within outer) :=
  inferInstanceAs (Decidable (_ ∧ _))

instance : ToString Span where
  toString span := s!"{span.start}..{span.stop}"

end Span

end HclEdit
