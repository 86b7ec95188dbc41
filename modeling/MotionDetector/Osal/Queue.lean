import MotionDetector.Types

/-!
# Message queues (`utils/osal/osal.c`, `osal_queue_*`)

A POSIX queue opened with `O_NONBLOCK`. All messages are sent with priority 0,
so they are received in the order they were sent.
-/

namespace MotionDetector

variable {α : Type*}

structure Mqueue (α : Type*) where
  mqMaxmsg : ℕ
  mqMsgsize : ℕ
  messages : List α
  deriving DecidableEq, Repr

namespace Mqueue

/-- `mq_open` with `O_CREAT` and without `O_EXCL`: the attributes count only where
no queue of that name exists. -/
def mqOpen (named : Option (Mqueue α)) (mqMaxmsg mqMsgsize : ℕ) : Mqueue α :=
  named.getD ⟨mqMaxmsg, mqMsgsize, []⟩

def osalQueueCreate (named : Option (Mqueue α)) (queueSize msgSize : ℕ) : Mqueue α :=
  mqOpen named queueSize msgSize

/-- `mq_send`: `EMSGSIZE` on a message that is too long, `EAGAIN` on a full queue. -/
def mqSend (q : Mqueue α) (msg : α) (size : ℕ) : ℤ × Mqueue α :=
  if q.mqMsgsize < size then (-1, q)
  else if q.messages.length < q.mqMaxmsg then (0, { q with messages := q.messages ++ [msg] })
  else (-1, q)

/-- `mq_receive`: the number of bytes received and the message. -/
def mqReceive (q : Mqueue α) (size : ℕ) : ℤ × Option α × Mqueue α :=
  if size < q.mqMsgsize then (-1, none, q)
  else match q.messages with
    | [] => (-1, none, q)
    | msg :: rest => (q.mqMsgsize, some msg, { q with messages := rest })

def osalQueueSend (q : Mqueue α) (msg : α) (size : ℕ) : SysResult × Mqueue α :=
  (isError (q.mqSend msg size).1, (q.mqSend msg size).2)

def osalQueueReceive (q : Mqueue α) (size : ℕ) : SysResult × Option α × Mqueue α :=
  (isError (q.mqReceive size).1, (q.mqReceive size).2)

theorem osalQueueSend_room {q : Mqueue α} {size : ℕ} (msg : α) (hsize : size = q.mqMsgsize)
    (hroom : q.messages.length < q.mqMaxmsg) :
    q.osalQueueSend msg size = (.success, { q with messages := q.messages ++ [msg] }) := by
  simp [osalQueueSend, mqSend, hsize, hroom, isError]

theorem osalQueueSend_full {q : Mqueue α} (msg : α) (size : ℕ)
    (hfull : q.mqMaxmsg ≤ q.messages.length) :
    q.osalQueueSend msg size = (.failure, q) := by
  simp [osalQueueSend, mqSend, Nat.not_lt.mpr hfull, isError]

theorem osalQueueReceive_nil {q : Mqueue α} (size : ℕ) (h : q.messages = []) :
    q.osalQueueReceive size = (.failure, none, q) := by
  simp [osalQueueReceive, mqReceive, h, isError]

theorem osalQueueReceive_cons {q : Mqueue α} {size : ℕ} (hsize : size = q.mqMsgsize) {msg : α}
    {rest : List α} (h : q.messages = msg :: rest) :
    q.osalQueueReceive size = (.success, some msg, { q with messages := rest }) := by
  simp [osalQueueReceive, mqReceive, hsize, h, isError]

end Mqueue

end MotionDetector
