import ClassScript.Machine.Error
import ClassScript.Value.Basic

/-!
# The state of a run

The machine holds the frames, of which frame 0 binds the global names, the fields of the objects,
the functions of the host, the distances at which uses of names are bound, the frame in which the
program runs, and the output. Frames and objects are only ever added. A run tells a watch of the
statements it comes to, the frames it makes, the names it reads, the properties it asks for and the
methods of superclasses.
-/

set_option autoImplicit false

namespace ClassScript

/-! ## Output -/

/-- Where the output goes: the bytes taken so far, which one of the next bytes is the first that is
refused, counted from 1, and whether a flush fails. A sink that has refused a byte has the room 0, and
one that never does has none. -/
structure Sink where
  written : ByteArray
  room : Option Nat
  flushFails : Bool

namespace Sink

/-- A sink that takes everything. -/
def unlimited : Sink :=
  ⟨.empty, none, false⟩

/-- A sink that takes the first `n` bytes and then refuses all others. -/
def limited (n : Nat) : Sink :=
  ⟨.empty, some (n + 1), false⟩

/-- Writes a text up to the first byte that is refused. -/
def write (s : Sink) (text : String) : Except SinkError Unit × Sink :=
  match s.room with
  | none => (.ok (), ⟨s.written ++ text.toUTF8, none, s.flushFails⟩)
  | some n =>
    let bytes := text.toUTF8
    if bytes.size < n then (.ok (), ⟨s.written ++ bytes, some (n - bytes.size), s.flushFails⟩)
    else (.error .full, ⟨s.written ++ bytes.extract 0 (n - 1), some 0, s.flushFails⟩)

/-- Passes on what was written. -/
def flush (s : Sink) : Except SinkError Unit :=
  if s.flushFails then .error .flush else .ok ()

end Sink

/-! ## The machine -/

/-- A function of the host. -/
structure Native where
  arity : Nat
  run : List Value → Except RuntimeError Value

/-- The host's clock: the time in seconds, or why it cannot be told. -/
abbrev Clock := Except String Float

/-- The function that tells the time. -/
def Native.clock (c : Clock) : Native :=
  ⟨0, fun _ =>
    match c with
    | .ok seconds => .ok (.number seconds)
    | .error reason => .error ⟨.native ("Clock error: " ++ reason), 0⟩⟩

/-- The state of a run. -/
structure Machine where
  frames : Frames Value
  objects : Array (Bindings Value)
  natives : Array Native
  nextIdentity : Nat
  distances : Array (Option Nat)
  current : FrameId
  sink : Sink

namespace Machine

/-- The frame of the global names. -/
def globalFrame : FrameId := 0

/-- A machine before its first run: it knows the global name `clock`. -/
def new (clock : Clock) (sink : Sink) : Machine :=
  { frames := Frames.new.define globalFrame "clock" (.native 0 0)
    objects := #[]
    natives := #[.clock clock]
    nextIdentity := 0
    distances := #[]
    current := globalFrame
    sink }

/-- Sets the clock. -/
def setClock (m : Machine) (clock : Clock) : Machine :=
  { m with natives := m.natives.modify 0 fun _ => .clock clock }

/-- The global names. -/
def globals (m : Machine) : Bindings Value :=
  m.frames.vars globalFrame

/-- Brings earlier global names back; objects and frames stay as they are. -/
def restoreGlobals (m : Machine) (vars : Bindings Value) : Machine :=
  { m with frames := m.frames.restore globalFrame vars }

/-- Binds a global name. -/
def defineGlobal (m : Machine) (x : String) (v : Value) : Machine :=
  { m with frames := m.frames.define globalFrame x v }

/-- Adds a function of the host. -/
def addNative (m : Machine) (f : Native) : Value × Machine :=
  (.native m.natives.size f.arity, { m with natives := m.natives.push f })

/-- The bytes written since the output was last taken, and the machine without them. -/
def takeOutput (m : Machine) : ByteArray × Machine :=
  (m.sink.written, { m with sink := { m.sink with written := .empty } })

/-- The number of the next use of a name. -/
def nextUse (m : Machine) : NodeId :=
  m.distances.size

/-- The distance at which a use of a name is bound, none for a global name. -/
def distance? (m : Machine) (id : NodeId) : Option Nat :=
  m.distances[id]?.join

/-- Makes room for the uses of names up to a number. -/
def reserve (m : Machine) (next : NodeId) : Machine :=
  { m with distances := m.distances ++ Array.replicate (next - m.distances.size) none }

/-- Notes at which distances uses of names are bound. -/
def note (m : Machine) (notes : List (NodeId × Nat)) : Machine :=
  { m with distances := notes.foldl (fun ds n => ds.modify n.1 fun _ => some n.2) m.distances }

/-- The value of a use of a name: in the frame at its distance, or among the global names. -/
def valueOf (m : Machine) (id : NodeId) (name : Name) : Except LookupError Value :=
  match m.distance? id with
  | some d => m.frames.getAt m.current d name.text
  | none => m.frames.getOwn globalFrame name.text

/-- The value of a field of an object. -/
def field? (m : Machine) (id : ObjectId) (name : String) : Option Value :=
  m.objects[id]?.bind fun fields => fields.get? name

/-- The frame to which a use of a name assigns: the one at its distance, or that of the global
names, if it binds the name. -/
def slot (m : Machine) (id : NodeId) (name : Name) : Except LookupError FrameId :=
  match m.distance? id with
  | some d => m.frames.slotAt m.current d name.text
  | none => m.frames.slotOwn globalFrame name.text

end Machine

/-! ## Steps of a run -/

/-- A part of a run. -/
abbrev Run := EStateM Stop Machine

/-- What a frame is made for. -/
inductive Opening where
  | block (body : List (Stmt NodeId))
  | call (decl : FunctionDecl (Stmt NodeId))
  | method (decl : FunctionDecl (Stmt NodeId))
  | fields (decls : List (VarDecl NodeId))
  | superclass (decl : ClassDecl NodeId (Stmt NodeId))
  deriving Repr

/-- What a watch is told: that a statement is about to run, that a frame has been made, that a use of a
name is about to be read, that a property of a value is about to be read or set, or that a method of the
superclass is about to be looked for. -/
inductive Event where
  | statement (s : Stmt NodeId)
  | opened (frame : FrameId) (opening : Opening)
  | read (id : NodeId) (name : Name)
  | access (object : Value) (name : Name)
  | super (id : NodeId) (keyword method : Name)
  deriving Repr

/-- Looks at the machine at every event of a run, and may stop the run there. -/
abbrev Watch := Event → Run Unit

/-- The watch that does nothing. -/
def Watch.none : Watch :=
  fun _ => pure ()

namespace Run

variable {α : Type}

/-- Stops with a fault. -/
def fail (cause : RuntimeCause) (line : Nat) : Run α :=
  throw (.fault ⟨cause, line⟩)

/-- Goes on with a value or stops with a fault. -/
def ofExcept : Except RuntimeError α → Run α
  | .ok a => pure a
  | .error e => throw (.fault e)

/-- Goes on with what was looked up or stops with a fault. -/
def ofLookup (line : Nat) : Except LookupError α → Run α
  | .ok a => pure a
  | .error e => fail (.undefinedVariable e.name) line

/-- A number for a new function or class. -/
def freshIdentity : Run Nat :=
  modifyGet fun m => (m.nextIdentity, { m with nextIdentity := m.nextIdentity + 1 })

/-- A new frame inside another one. -/
def newFrame (outer : FrameId) (vars : Bindings Value) : Run FrameId :=
  modifyGet fun m => (m.frames.nextId, { m with frames := m.frames.addChild outer vars })

/-- A new frame of which a watch is told. -/
def openFrame (watch : Watch) (outer : FrameId) (vars : Bindings Value) (opening : Opening) :
    Run FrameId := do
  let frame ← newFrame outer vars
  watch (.opened frame opening)
  return frame

/-- A new object without fields. -/
def newObject : Run ObjectId :=
  modifyGet fun m => (m.objects.size, { m with objects := m.objects.push .empty })

/-- Sets a field of an object. -/
def setField (id : ObjectId) (name : String) (v : Value) : Run Unit :=
  modify fun m => { m with objects := m.objects.modify id fun fields => fields.insert name v }

/-- The value of a field of an object. -/
def getField? (id : ObjectId) (name : String) : Run (Option Value) := do
  return (← get).field? id name

/-- Binds a name in the current frame. -/
def define (name : String) (v : Value) : Run Unit :=
  modify fun m => { m with frames := m.frames.define m.current name v }

/-- The value of a use of a name. -/
def lookUp (watch : Watch) (id : NodeId) (name : Name) : Run Value := do
  watch (.read id name)
  ofLookup name.line ((← get).valueOf id name)

/-- Assigns to a use of a name that is bound. -/
def assign (id : NodeId) (name : Name) (v : Value) : Run Unit := do
  let slot ← ofLookup name.line ((← get).slot id name)
  modify fun m => { m with frames := m.frames.define slot name.text v }

/-- A part of a run in another frame, after which the frame of before is current again. -/
def inFrame (frame : FrameId) (x : Run α) : Run α := fun m =>
  let before := m.current
  match x { m with current := frame } with
  | .ok a m => .ok a { m with current := before }
  | .error e m => .error e { m with current := before }

/-- Prints a line. -/
def print (text : String) : Run Unit := fun m =>
  match m.sink.write (text ++ "\n") with
  | (.ok _, sink) => .ok () { m with sink }
  | (.error e, sink) => .error (.output e) { m with sink }

/-- Calls a function of the host. -/
def callNative (id : Nat) (args : List Value) : Run Value := do
  match (← get).natives[id]? with
  | some f => ofExcept (f.run args)
  | none => return .nil

end Run

end ClassScript
