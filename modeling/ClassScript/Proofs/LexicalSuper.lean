import ClassScript.Proofs.ReadsFound

/-!
# `super` is lexical

Which class `super` stands for is decided where it stands in the program. The frame that was made
for the superclass of the class declaration around it is reached one frame farther out than the
frame that knows `this`, on every path: through methods of objects, inherited ones too, initial
values of fields, functions in methods and classes in methods. It knows the class that the name of
the superclass stood for when the class was declared, whatever class the object has
(`Session.super_lexical`).
-/

set_option autoImplicit false

namespace ClassScript

open Resolution FrameWorld

namespace Session

/-- Whatever is asked of a session, when a class with a superclass is declared in a run, a frame is
made that is remembered with the class that the name of the superclass stands for. Each use of
`super` stands in a class with a superclass; it leads to a method of the class that is remembered
with the frame of this class declaration, the method of the nearest layer from this class upward,
for the object that is `this` at the place of the use, and it fails only if no layer has the method.
-/
theorem super_lexical (typeCheck : Bool) (clock : Clock) (sink : Sink) (requests : List Request) :
    ∃ (opening : FrameId → Option Opening) (declared : FrameId → Option ClassValue),
      (Session.new typeCheck clock sink).EveryEvent requests
        (SuperFits opening declared (((Session.new typeCheck clock sink).ran requests).flatMap
          fun l => programPlaces l.program)) := by
  have hm : Describes (initial clock sink) (Session.new typeCheck clock sink).machine :=
    describes_initial clock sink
  obtain ⟨W, -, hknown, hw⟩ := replay_known hm
  refine ⟨W.opening, W.declared, fun watch hq => hw watch fun m e he => hq m e ?_⟩
  have hplaces : W.known = ((Session.new typeCheck clock sink).ran requests).flatMap
      fun l => programPlaces l.program := hknown
  rw [← hplaces]
  exact he.2

end Session

end ClassScript
