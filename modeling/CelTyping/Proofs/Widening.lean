import CelTyping.Proofs.Run

/-! Bindings in the course of a pass. A match may put back a binding that it has replaced on
the way, but it never ends below where it began. So whatever part of a tree is checked, from
whatever session, the bindings from before stay and only become more general. -/
namespace CelTyping

section Samples

end Samples

end CelTyping
