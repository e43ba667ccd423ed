import UsbTransfer.Session.Batches
import UsbTransfer.Session.Queues
import UsbTransfer.Session.Tables

/-!
# Carrying out commands

One command is carried out with a player for the scripts that it calls.  Scripts run inside each
other up to a limit, and a script beyond that is skipped.  A fault ends the command of a script
that met it, and becomes its result; only a script that gives up itself ends with a fault.
-/

namespace UsbTransfer
namespace Session

open Run

/-- Carries out one command. -/
def carryOut (play : Player) (atHand : Option (Key Batch)) : Command → Run Result
  | .addBus name plan => addBus name plan
  | .resetOnBus bus target scope => resetOnBus play bus target scope
  | .addEndpoint bus descriptor handle => addEndpoint play bus descriptor handle
  | .addReference handle copy => addReference play handle copy
  | .releaseHandle handle => releaseHandle play handle
  | .sameEndpoint a b => sameEndpoint a b
  | .endpointInfo handle => endpointInfo handle
  | .endpointText handle style => endpointText handle style
  | .referenceCount handle => referenceCount handle
  | .toggle handle => toggle handle
  | .setToggle handle value => setToggle handle value
  | .advanceToggle handle => advanceToggle handle
  | .addTable name => addTable play name
  | .dropTable table => dropTable play table
  | .register table handle => register play table handle
  | .find table target keep => find play table target keep
  | .remove table target keep => remove play table target keep
  | .removeDevice table address keep => removeDevice play table address keep
  | .resetTable table target scope => resetTable table target scope
  | .tableSize table => tableSize table
  | .createBatch handle batch => createBatch play handle batch
  | .newBatch handle batch => newBatch play handle batch
  | .batchInfo batch => onBatch play atHand batch batchInfo
  | .batchText batch style => onBatch play atHand batch (batchText · style)
  | .batchEndpoint batch keep => onBatch play atHand batch (batchEndpoint play · keep)
  | .batchIsOn batch handle => onBatch play atHand batch (batchIsOn · handle)
  | .setScope batch scope =>
      onBatch play atHand batch (changeTransfer · fun transfer => transfer.setScope scope)
  | .setSetup batch setup => onBatch play atHand batch (setSetup · setup)
  | .setBuffer batch data =>
      onBatch play atHand batch (changeTransfer · fun transfer => transfer.setBuffer data)
  | .allocBuffer batch length granted =>
      onBatch play atHand batch (allocBuffer · length granted)
  | .write batch start bytes => onBatch play atHand batch (write · start bytes)
  | .complete batch status actual =>
      onBatch play atHand batch (changeTransfer · fun transfer => transfer.complete status actual)
  | .schedule batch => onBatch play atHand batch schedule
  | .resetToggle batch => onBatch play atHand batch (resetToggle play)
  | .onComplete batch handler => onBatch play atHand batch (onComplete play · handler)
  | .toQueue batch queue => onBatch play atHand batch (toQueue play · queue)
  | .setData batch value => onBatch play atHand batch (setData play · value)
  | .getData batch type => onBatch play atHand batch (getData · type)
  | .changeData batch change => onBatch play atHand batch (changeData · change)
  | .takeData batch type keep => onBatch play atHand batch (takeData play · type keep)
  | .finish batch => endBatch batch (Batch.finish play)
  | .abort batch => endBatch batch (Batch.abort play)
  | .destroy batch => endBatch batch (Batch.destroy play)
  | .addQueue name => addQueue name
  | .shareQueue queue name => shareQueue queue name
  | .dropQueue queue => dropQueue queue
  | .push queue completion => push play queue completion
  | .tryNext queue => tryNext queue
  | .nextText queue style => nextText queue style
  | .queueSize queue => queueSize queue
  | .addWaker name code => addWaker name code
  | .poll queue route waker => poll queue route waker
  | .pollRacing queue route pushed => pollRacing play queue route pushed
  | .raise message => throw (.raised message)
  | .unreadable mistake => refuse mistake

/-- Makes a fault the result of a command. -/
def settle (m : Run Result) : Run Result := do
  match ← attempt m with
  | .ok result => return result
  | .error fault => return .error (.faulted fault)

/-- Carries out one command of a script. -/
def playCommand (play : Player) (atHand : Option (Key Batch)) : Command → Run Unit
  | .raise message => throw (.raised message)
  | command => do
      let result ← settle (carryOut play atHand command)
      record (.stepEnded result)

/-- The player that allows so many scripts to run inside each other. -/
def player : Nat → Player
  | 0 => fun _ _ => record .tooDeep
  | limit + 1 => fun atHand script => script.forM (playCommand (player limit) atHand)

end Session
end UsbTransfer
