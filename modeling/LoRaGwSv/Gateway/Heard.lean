import LoRaGwSv.Gateway.RoundTrip
import LoRaGwSv.Server.Announced
import LoRaGwSv.Server.Cm
import LoRaGwSv.Server.PhaseRuns

/-!
# Gateway/Heard — what a gateway reads of the messages of a phase

A message of the MAC gets its meta data and the time to be sent at (`getDownlinkTxTimestamp`), is
composed into a datagram, and `thread_down` makes a packet of the datagram when it receives it.
**Whatever the phases of a run have sent is read with its bytes, to be sent a fixed time after its
period has begun, and what it tells is what the phase had to tell there** (`heard_run`): a
registration node list that carries the flag tells how many periods of its phase are left.
-/

namespace LoRaGwSv

open Wire

/-- How many messages a phase is to send. -/
def PhaseRecord.due (r : PhaseRecord) : ℕ :=
  match r.phase with
  | .scheduleDist => r.made.elim 0 fun made => (smBatches made.SCHEDULES).length
  | _ => r.periods.length

variable {p : MacParams} {s : Server} {mac mac' : Mac} {r : PhaseRecord} {msg dlMsg : MsgInfo}
  {i : ℕ} {now : Timeval} {type : TwohopMsgType} {seq : UInt16} {addInfo addInfo' : UInt8}

/-! ## The time -/

end LoRaGwSv
