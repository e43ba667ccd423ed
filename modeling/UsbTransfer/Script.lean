import UsbTransfer.Hooks
import UsbTransfer.Transfer

/-!
# Scripts

A script is what user code does: a list of commands on named objects.  Commands are given from
outside, and scripts stand wherever the library calls user code, that is in the hooks of a bus,
in the handlers of completions and in wakers.
-/

namespace UsbTransfer

/-- The kinds of objects that have names. -/
inductive ObjectKind where
  | bus
  | endpoint
  | table
  | batch
  | queue
  | waker
deriving DecidableEq, Repr

/-- Why a command cannot be carried out as it was given. -/
inductive Mistake where
  /-- No object of that kind has that name. -/
  | unknown (kind : ObjectKind) (name : String)
  /-- The endpoint handle is in use by an operation in progress. -/
  | inUse (name : String)
  /-- The range does not lie within the buffer. -/
  | outOfRange
  /-- A part of the command is absent. -/
  | missing (part : String)
  /-- A part of the command is not what it should be. -/
  | malformed (part : String)
deriving DecidableEq, Repr

/-- The word for a kind of object. -/
def ObjectKind.word : ObjectKind → String
  | .bus => "bus"
  | .endpoint => "endpoint"
  | .table => "table"
  | .batch => "batch"
  | .queue => "queue"
  | .waker => "waker"

/-- The message of a mistake. -/
def Mistake.message : Mistake → String
  | .unknown kind name => "no " ++ kind.word ++ " " ++ name
  | .inUse name => "endpoint " ++ name ++ " in use"
  | .outOfRange => "bad range"
  | .missing part => "missing " ++ part
  | .malformed part => "bad " ++ part

/-- How a value is to be shown. -/
inductive Style where
  /-- Its line in a log. -/
  | line
  /-- Its figure on one line. -/
  | compact
  /-- Its figure on several lines. -/
  | pretty
deriving DecidableEq, Repr

/-- The types of the values that a controller may attach to a batch. -/
inductive DataType where
  | number
  | text
  /-- A text that tells when it is destroyed. -/
  | noisy
  | handle
deriving DecidableEq, Repr

/-- A value to be attached to a batch; an endpoint handle is given by its name. -/
inductive DataSpec where
  | number (value : UInt64)
  | text (value : String)
  | noisy (value : String)
  | handle (name : String)
deriving DecidableEq, Repr

/-- A change of an attached value. -/
inductive DataChange where
  | add (amount : UInt64)
  | append (text : String)
deriving DecidableEq, Repr

/-- A handler of completions: the code it runs, what it answers, the endpoint handles that are
moved into it, and whether it tells when it is destroyed. -/
structure HandlerSpec (Code : Type) where
  name : String
  code : Option Code
  reply : Option UsbError
  captured : List String
  noisy : Bool

/-- The ways to wait for a completion. -/
inductive PollRoute where
  /-- The queue is asked itself. -/
  | direct
  /-- A future for the next completion is polled once and dropped. -/
  | future
  /-- The queue is asked as a stream. -/
  | stream
deriving DecidableEq, Repr

/-- What the memory answers to a command that does not say it. -/
def usuallyGranted (length : Nat) : Bool := length < 4611686018427387904

/-- What user code can ask for. -/
inductive Command where
  | addBus (name : String) (plan : BusPlan (List Command))
  | resetOnBus (bus : String) (target : Target) (scope : ResetScope)
  | addEndpoint (bus : String) (descriptor : Descriptor) (handle : String)
  | addReference (handle copy : String)
  | releaseHandle (handle : String)
  | sameEndpoint (a b : String)
  | endpointInfo (handle : String)
  | endpointText (handle : String) (style : Style)
  | referenceCount (handle : String)
  | toggle (handle : String)
  | setToggle (handle : String) (value : Bool)
  | advanceToggle (handle : String)
  | addTable (name : String)
  | dropTable (table : String)
  | register (table handle : String)
  | find (table : String) (target : Target) (keep : Option String)
  | remove (table : String) (target : Target) (keep : Option String)
  | removeDevice (table : String) (address : UInt8) (keep : Option String)
  | resetTable (table : String) (target : Target) (scope : ResetScope)
  | tableSize (table : String)
  | createBatch (handle batch : String)
  | newBatch (handle batch : String)
  | batchInfo (batch : String)
  | batchText (batch : String) (style : Style)
  | batchEndpoint (batch : String) (keep : Option String)
  | batchIsOn (batch handle : String)
  | setScope (batch : String) (scope : ResetScope)
  | setSetup (batch : String) (setup : SetupPacket)
  | setBuffer (batch : String) (data : List UInt8)
  /-- Whether the memory is granted is not for the library to decide. -/
  | allocBuffer (batch : String) (length : Nat) (granted : Bool := usuallyGranted length)
  | write (batch : String) (start : Nat) (bytes : List UInt8)
  | complete (batch : String) (status : Status) (actual : Nat)
  | schedule (batch : String)
  | resetToggle (batch : String)
  | onComplete (batch : String) (handler : HandlerSpec (List Command))
  | toQueue (batch queue : String)
  | setData (batch : String) (value : DataSpec)
  | getData (batch : String) (type : DataType)
  | changeData (batch : String) (change : DataChange)
  | takeData (batch : String) (type : DataType) (keep : Option String)
  | finish (batch : String)
  | abort (batch : String)
  | destroy (batch : String)
  | addQueue (name : String)
  | shareQueue (queue name : String)
  | dropQueue (queue : String)
  | push (queue : String) (completion : Completion)
  | tryNext (queue : String)
  | nextText (queue : String) (style : Style)
  | queueSize (queue : String)
  | addWaker (name : String) (code : Option (List Command))
  | poll (queue : String) (route : PollRoute) (waker : String)
  /-- Waits while another context pushes a completion in the middle of it. -/
  | pollRacing (queue : String) (route : PollRoute) (pushed : Completion)
  /-- Gives up with a message. -/
  | raise (message : String)
  /-- A command that could not be read. -/
  | unreadable (mistake : Mistake)

/-- Commands in the order in which they are given. -/
abbrev Script := List Command

/-- What is woken when a completion arrives. -/
structure Waker where
  name : String
  code : Option Script

end UsbTransfer
