import Mathlib.Data.Option.Basic
import EosUpdater.Machine.Run
import EosUpdater.UpdateServer.Repo

/-!
# The download of a compressed object

`handle_objects_filez` starts a read, and `filez_stream_read_chunk_cb` puts what it gave into the
body and starts the next one. Between any two of these calls libsoup sends of the response what
there is, and the client may go away: then the `finished` signal takes the message from the reader.

The body is what has been read, it is completed once, and the message is left alone after its
`finished` signal, whatever happens in which order (`Reading`). But a read that fails after the
headers have been sent ends the response as if it were whole. What a client gets as a whole response
with status 200 is the stream in all runs in which this does not happen
(`delivers_of_run`).
-/

namespace Eus

open Euu (GError)
open Machine

/-! ### Messages and readers -/

/-- A `SoupServerMessage`: its response, how often the body of it has been completed, and whether
libsoup waits with sending it. -/
structure SoupServerMessage where
  status : SoupStatus
  body : Bytes
  completions : ℕ
  paused : Bool
deriving DecidableEq, Repr

/-- `EosFilezReadData`, with whether it still has the message. -/
structure EosFilezReadData where
  hasMsg : Bool
  buffer : Bytes
  buflen : ℕ
deriving DecidableEq, Repr

/-- `filez_read_data_finished_cb`. -/
def filezReadDataFinishedCb (readData : EosFilezReadData) : EosFilezReadData :=
  { readData with hasMsg := false }

/-- `filez_stream_read_chunk_cb`, on the result of a read. The reader is kept for the next read, or
freed. -/
def filezStreamReadChunk (readData : EosFilezReadData) (msg : SoupServerMessage)
    (bytesRead : Except GError ℕ) : Option EosFilezReadData × SoupServerMessage :=
  -- the message was finished while the read was under way
  if !readData.hasMsg then (none, msg)
  else
    match bytesRead with
    -- the status is set whether or not it has been sent
    | .error _ =>
        (none, { msg with
          status := .internalServerError
          completions := msg.completions + 1
          paused := false })
    -- the end of the stream
    | .ok 0 => (none, { msg with completions := msg.completions + 1, paused := false })
    | .ok (n + 1) =>
        (some readData, { msg with
          body := msg.body ++ readData.buffer.take (n + 1)
          paused := false })

/-! ### Downloads -/

/-- What the client has been sent. -/
structure Sent where
  /-- The status line, with the headers. -/
  status : Option SoupStatus
  body : Bytes
  /-- The chunk that ends the body. -/
  terminated : Bool
deriving DecidableEq, Repr

/-- A download, with what is left of its stream. -/
structure Download where
  readData : Option EosFilezReadData
  /-- The result of the read that has been started, once there is one. -/
  bytesRead : Option (Except GError ℕ)
  remaining : Bytes
  msg : SoupServerMessage
  /-- The `finished` signal of the message. -/
  finished : Bool
  sent : Sent

/-- What happens in a download: in the stream, in the callbacks, and in libsoup. -/
inductive DownloadEvent
  | read (result : Except GError ℕ)
  | readChunk
  | finish
  | sendHeaders
  | sendBytes (n : ℕ)
  | terminate

namespace Download

/-- The download as `handle_objects_filez` leaves it. -/
def start (stream buffer : Bytes) (buflen : ℕ) : Download where
  readData := some ⟨true, buffer, buflen⟩
  bytesRead := none
  remaining := stream
  msg := ⟨.ok, [], 0, true⟩
  finished := false
  sent := ⟨none, [], false⟩

/-- The stream fills the buffer with some of its bytes, with none only at its end, or it fails. -/
def read (s : Download) (result : Except GError ℕ) : Option Download := do
  let readData ← s.readData
  guard (s.bytesRead = none)
  match result with
  | .error _ => return { s with bytesRead := some result }
  | .ok n =>
      guard (n ≤ readData.buflen ∧ n ≤ s.remaining.length ∧ (n = 0 → s.remaining = []))
      return { s with
        readData := some { readData with buffer := s.remaining.take n ++ readData.buffer.drop n }
        bytesRead := some result
        remaining := s.remaining.drop n }

/-- The callback of the read. -/
def readChunk (s : Download) : Option Download := do
  let readData ← s.readData
  let result ← s.bytesRead
  let after := filezStreamReadChunk readData s.msg result
  return { s with readData := after.1, bytesRead := none, msg := after.2 }

/-- The message is finished, since all has been sent or the client is gone. -/
def finish (s : Download) : Option Download := do
  guard (s.finished = false)
  return { s with readData := s.readData.map filezReadDataFinishedCb, finished := true }

/-- Libsoup may send something. -/
def CanSend (s : Download) : Prop := s.finished = false ∧ s.msg.paused = false

/-- Whether something can be sent is read off the message. -/
instance (s : Download) : Decidable s.CanSend := inferInstanceAs (Decidable (_ ∧ _))

/-- The headers go out with the status that the message has then. -/
def sendHeaders (s : Download) : Option Download := do
  guard (s.CanSend ∧ s.sent.status = none)
  return { s with sent := { s.sent with status := some s.msg.status } }

/-- Some bytes of the body go out. -/
def sendBytes (s : Download) (n : ℕ) : Option Download := do
  guard (s.CanSend ∧ s.sent.status ≠ none ∧ s.sent.terminated = false)
  return { s with sent := { s.sent with body := s.msg.body.take (s.sent.body.length + n) } }

/-- A completed body is terminated when all of it has been sent. -/
def terminate (s : Download) : Option Download := do
  -- after the headers, and whatever they said
  guard (s.CanSend ∧ s.sent.status ≠ none ∧ 0 < s.msg.completions ∧ s.sent.body = s.msg.body)
  return { s with sent := { s.sent with terminated := true } }

/-- One event. -/
def step (s : Download) : DownloadEvent → Option Download
  | .read result => s.read result
  | .readChunk => s.readChunk
  | .finish => s.finish
  | .sendHeaders => s.sendHeaders
  | .sendBytes n => s.sendBytes n
  | .terminate => s.terminate

/-- A download of a stream, before the first read. -/
def Initial (stream : Bytes) (s : Download) : Prop :=
  ∃ buffer buflen, s = start stream buffer buflen

/-- What has been read and is not in the body yet. -/
def buffered (s : Download) : Bytes :=
  match s.readData, s.bytesRead with
  | some readData, some (.ok n) => readData.buffer.take n
  | _, _ => []

/-- The body is what the callbacks have been given of the stream so far, and all that was read
unless the message was finished before; and the body is completed once, when there is nothing to be
read any more. -/
structure Reading (stream : Bytes) (s : Download) : Prop where
  body_prefix : s.msg.body <+: stream
  body_eq : s.finished = false → s.msg.body ++ s.buffered ++ s.remaining = stream
  once : s.msg.completions ≤ 1
  ended : s.readData = none → s.finished = false → s.msg.completions = 1

/-- A client that has been sent a whole response with status 200 has been sent the stream. -/
def Delivers (stream : Bytes) (s : Download) : Prop :=
  s.sent.terminated = true → s.sent.status = some .ok → s.sent.body = stream

/-- No read fails after the headers have been sent and before the end of the stream, unless the
message was finished. -/
def FailsEarly (τ : Transition Download DownloadEvent) : Prop :=
  τ.event = .readChunk → τ.before.finished = false → (∃ e, τ.before.bytesRead = some (.error e)) →
    τ.before.sent.status = none ∨ τ.before.remaining = []

variable {stream : Bytes} {s t : Download} {result : Except GError ℕ} {n : ℕ}
variable {event : DownloadEvent} {history : History Download DownloadEvent}

/-! ### What the events do -/

/-- What the end of a read does. -/
theorem read_cases (h : s.read result = some t) :
    ∃ readData, s.readData = some readData ∧ s.bytesRead = none ∧
      ((∃ e, result = .error e ∧ t = { s with bytesRead := some (.error e) }) ∨
        ∃ n, result = .ok n ∧ n ≤ s.remaining.length ∧ (n = 0 → s.remaining = []) ∧
          t = { s with
            readData := some { readData with
              buffer := s.remaining.take n ++ readData.buffer.drop n }
            bytesRead := some (.ok n)
            remaining := s.remaining.drop n }) := by
  simp only [read, Option.bind_eq_bind, Option.bind_eq_some_iff, Option.guard_eq_some'] at h
  obtain ⟨readData, hdata, -, hnone, h⟩ := h
  refine ⟨readData, hdata, hnone, ?_⟩
  -- an error takes nothing from the stream, a read takes what it puts into the buffer
  cases result with
  | error e => exact .inl ⟨e, rfl, (Option.some_inj.1 h).symm⟩
  | ok n =>
      simp only [Option.bind_eq_some_iff, Option.guard_eq_some'] at h
      obtain ⟨-, ⟨-, hlength, hend⟩, h⟩ := h
      exact .inr ⟨n, rfl, hlength, hend, (Option.some_inj.1 h).symm⟩

/-- What the callback does: nothing more if the message was finished, and otherwise it completes the
body or appends to it. -/
theorem readChunk_cases (h : s.readChunk = some t) :
    ∃ readData result, s.readData = some readData ∧ s.bytesRead = some result ∧
      ((readData.hasMsg = false ∧ t = { s with readData := none, bytesRead := none }) ∨
        readData.hasMsg = true ∧
        ((∃ e, result = .error e ∧ t = { s with
            readData := none
            bytesRead := none
            msg := { s.msg with
              status := .internalServerError
              completions := s.msg.completions + 1
              paused := false } }) ∨
          (result = .ok 0 ∧ t = { s with
            readData := none
            bytesRead := none
            msg := { s.msg with completions := s.msg.completions + 1, paused := false } }) ∨
          ∃ n, result = .ok (n + 1) ∧ t = { s with
            bytesRead := none
            msg := { s.msg with
              body := s.msg.body ++ readData.buffer.take (n + 1)
              paused := false } })) := by
  simp only [readChunk, Option.bind_eq_bind, Option.bind_eq_some_iff] at h
  obtain ⟨readData, hdata, result, hresult, h⟩ := h
  refine ⟨readData, result, hdata, hresult, ?_⟩
  rw [← Option.some_inj.1 h]
  -- the branches of the callback, which updates only some of the fields
  cases hmsg : readData.hasMsg with
  | false =>
      refine .inl ⟨rfl, ?_⟩
      rw [filezStreamReadChunk.eq_def, hmsg]
      rfl
  | true =>
      refine .inr ⟨rfl, ?_⟩
      rw [filezStreamReadChunk.eq_def, hmsg]
      match result with
      | .error e => exact .inl ⟨e, rfl, rfl⟩
      | .ok 0 => exact .inr (.inl ⟨rfl, rfl⟩)
      | .ok (n + 1) =>
          refine .inr (.inr ⟨n, rfl, ?_⟩)
          rw [← hdata]
          rfl

/-- What the end of the message does. -/
theorem finish_cases (h : s.finish = some t) : s.finished = false ∧
    t = { s with readData := s.readData.map filezReadDataFinishedCb, finished := true } := by
  simp only [finish, Option.bind_eq_bind, Option.bind_eq_some_iff, Option.guard_eq_some'] at h
  obtain ⟨-, hfinished, h⟩ := h
  exact ⟨hfinished, (Option.some_inj.1 h).symm⟩

/-- What sending the headers does. -/
theorem sendHeaders_cases (h : s.sendHeaders = some t) :
    t = { s with sent := { s.sent with status := some s.msg.status } } := by
  simp only [sendHeaders, Option.bind_eq_bind, Option.bind_eq_some_iff] at h
  obtain ⟨-, -, h⟩ := h
  exact (Option.some_inj.1 h).symm

/-- What sending some bytes does. -/
theorem sendBytes_cases (h : s.sendBytes n = some t) : s.sent.terminated = false ∧
    t = { s with sent := { s.sent with body := s.msg.body.take (s.sent.body.length + n) } } := by
  simp only [sendBytes, Option.bind_eq_bind, Option.bind_eq_some_iff, Option.guard_eq_some'] at h
  obtain ⟨-, ⟨-, -, hterminated⟩, h⟩ := h
  exact ⟨hterminated, (Option.some_inj.1 h).symm⟩

/-- What the end of the response does. -/
theorem terminate_cases (h : s.terminate = some t) :
    0 < s.msg.completions ∧ s.sent.body = s.msg.body ∧
      t = { s with sent := { s.sent with terminated := true } } := by
  simp only [terminate, Option.bind_eq_bind, Option.bind_eq_some_iff, Option.guard_eq_some'] at h
  obtain ⟨-, ⟨-, -, hcompleted, hbody⟩, h⟩ := h
  exact ⟨hcompleted, hbody, (Option.some_inj.1 h).symm⟩

/-! ### What holds in any order -/

/-- What holds of a download at any time. -/
structure Consistent (stream : Bytes) (s : Download) : Prop extends Reading stream s where
  hasMsg : ∀ readData, s.readData = some readData →
    (readData.hasMsg = true ↔ s.finished = false) ∧ s.msg.completions = 0
  eof : s.bytesRead = some (.ok 0) → s.remaining = []
  enough : ∀ readData n, s.readData = some readData → s.bytesRead = some (.ok n) →
    n ≤ readData.buffer.length
  terminated : s.sent.terminated = true → s.sent.body = s.msg.body ∧ s.msg.completions = 1
  whole : s.msg.completions = 1 → s.msg.status = .ok → s.msg.body = stream

/-- At the start nothing is inconsistent. -/
theorem Initial.consistent (h : s.Initial stream) : s.Consistent stream := by
  obtain ⟨buffer, buflen, rfl⟩ := h
  constructor
  · constructor <;> simp [start, buffered]
  all_goals simp [start]

/-- Consistency is kept when a read ends. -/
theorem Consistent.read (h : s.Consistent stream) (hstep : s.read result = some t) :
    t.Consistent stream := by
  obtain ⟨readData, hdata, hnone, ⟨e, -, rfl⟩ | ⟨n, -, hlength, hend, rfl⟩⟩ := read_cases hstep
  · refine ⟨⟨h.body_prefix, fun hfinished => ?_, h.once, fun hd => ?_⟩, h.hasMsg, nofun, nofun,
      h.terminated, h.whole⟩
    · have hbody := h.body_eq hfinished
      rw [buffered, hdata, hnone] at hbody
      rw [buffered, hdata]
      exact hbody
    · rw [hdata] at hd
      cases hd
  · refine ⟨⟨h.body_prefix, fun hfinished => ?_, h.once, nofun⟩, ?_, ?_, ?_, h.terminated, h.whole⟩
    -- what the read takes from the stream is in the buffer, as nothing else was
    · have hbody := h.body_eq hfinished
      rw [buffered, hdata, hnone, List.append_nil] at hbody
      have hbuffer :
          (s.remaining.take n ++ readData.buffer.drop n).take n = s.remaining.take n := by
        rw [List.take_append_of_le_length (by simp [hlength]), List.take_take, min_self]
      show s.msg.body ++ (s.remaining.take n ++ readData.buffer.drop n).take n ++
        s.remaining.drop n = stream
      rw [hbuffer, List.append_assoc, List.take_append_drop, hbody]
    · rintro _ ⟨⟩
      exact h.hasMsg readData hdata
    · intro hzero
      cases hzero
      rw [hend rfl, List.drop_nil]
    · rintro _ _ ⟨⟩ ⟨⟩
      simp [hlength]

/-- Consistency is kept when a chunk is handled. -/
theorem Consistent.readChunk (h : s.Consistent stream) (hstep : s.readChunk = some t) :
    t.Consistent stream := by
  obtain ⟨readData, result, hdata, hresult, hcases⟩ := readChunk_cases hstep
  obtain ⟨hmsg, hopen⟩ := h.hasMsg readData hdata
  -- the response is not at its end while there is a reader
  have hopen' : ¬ s.sent.terminated = true := fun hterm => by
    have hone := (h.terminated hterm).2
    omega
  rcases hcases with ⟨hcleared, rfl⟩ | ⟨hhas, hcases⟩
  -- the reader has lost the message to the signal, and only goes itself
  · have hfinished : ¬ s.finished = false := fun hf => by simp [hmsg.2 hf] at hcleared
    exact ⟨⟨h.body_prefix, fun hf => absurd hf hfinished, h.once, fun _ hf => absurd hf hfinished⟩,
      nofun, nofun, nofun, h.terminated, h.whole⟩
  have hbody := h.body_eq (hmsg.1 hhas)
  rw [buffered, hdata, hresult] at hbody
  rcases hcases with ⟨e, rfl, rfl⟩ | ⟨rfl, rfl⟩ | ⟨n, rfl, rfl⟩
  -- an error: the status is no longer 200, so the body need not be whole
  · rw [List.append_nil] at hbody
    refine ⟨⟨h.body_prefix, fun _ => ?_, hopen.symm ▸ le_rfl, fun _ _ => ?_⟩, nofun, nofun,
      nofun, fun hterm => absurd hterm hopen', nofun⟩
    · rw [buffered, List.append_nil]
      exact hbody
    · show s.msg.completions + 1 = 1
      rw [hopen]
  · simp only [List.take_zero, List.append_nil] at hbody
    refine ⟨⟨h.body_prefix, fun _ => ?_, hopen.symm ▸ le_rfl, fun _ _ => ?_⟩, nofun, nofun,
      nofun, fun hterm => absurd hterm hopen', fun _ _ => ?_⟩
    · rw [buffered, List.append_nil]
      exact hbody
    · show s.msg.completions + 1 = 1
      rw [hopen]
    · -- nothing was read since nothing is left
      rw [h.eof hresult, List.append_nil] at hbody
      exact hbody
  -- a chunk goes from the buffer into the body, and the reader stays
  · have hpre : s.msg.body ++ readData.buffer.take (n + 1) <+: stream := ⟨s.remaining, hbody⟩
    refine ⟨⟨hpre, fun _ => ?_, h.once, ?_⟩, h.hasMsg, nofun, nofun,
      fun hterm => absurd hterm hopen', ?_⟩
    · show s.msg.body ++ readData.buffer.take (n + 1) ++ buffered _ ++ s.remaining = stream
      rw [buffered, hdata, List.append_nil]
      exact hbody
    · rw [hdata]
      exact nofun
    · intro hone
      rw [show s.msg.completions = 1 from hone] at hopen
      cases hopen

/-- Consistency is kept when the message is finished. -/
theorem Consistent.finish (h : s.Consistent stream) (hstep : s.finish = some t) :
    t.Consistent stream := by
  obtain ⟨-, rfl⟩ := finish_cases hstep
  refine ⟨⟨h.body_prefix, nofun, h.once, nofun⟩, fun readData hdata => ?_, h.eof,
    fun readData n hdata hresult => ?_, h.terminated, h.whole⟩
  · obtain ⟨before, hbefore, rfl⟩ := Option.map_eq_some_iff.1 hdata
    exact ⟨by simp [filezReadDataFinishedCb], (h.hasMsg before hbefore).2⟩
  · obtain ⟨before, hbefore, rfl⟩ := Option.map_eq_some_iff.1 hdata
    exact h.enough before n hbefore hresult

/-- Consistency is kept by every event. -/
theorem Consistent.step (h : s.Consistent stream) (hstep : s.step event = some t) :
    t.Consistent stream := by
  cases event with
  | read result => exact h.read hstep
  | readChunk => exact h.readChunk hstep
  | finish => exact h.finish hstep
  | sendHeaders =>
      rw [sendHeaders_cases hstep]
      exact ⟨⟨h.body_prefix, h.body_eq, h.once, h.ended⟩, h.hasMsg, h.eof, h.enough,
        h.terminated, h.whole⟩
  | sendBytes n =>
      obtain ⟨hterm, rfl⟩ := sendBytes_cases hstep
      exact ⟨⟨h.body_prefix, h.body_eq, h.once, h.ended⟩, h.hasMsg, h.eof, h.enough,
        fun hterm' => by simp [hterm] at hterm', h.whole⟩
  | terminate =>
      obtain ⟨hcompleted, hbody, rfl⟩ := terminate_cases hstep
      exact ⟨⟨h.body_prefix, h.body_eq, h.once, h.ended⟩, h.hasMsg, h.eof, h.enough,
        fun _ => ⟨hbody, le_antisymm h.once hcompleted⟩, h.whole⟩

/-- Every state of a run is consistent. -/
theorem consistent_of_run (hrun : Run (Initial stream) step history s) :
    s.Consistent stream := by
  induction hrun with
  | start hinitial => exact hinitial.consistent
  | next _ hstep ih => exact ih.step hstep

/-- Nothing changes a message after its `finished` signal, which is not undone. -/
theorem msg_of_finished (h : s.Consistent stream) (hstep : s.step event = some t)
    (hfinished : s.finished = true) : t.msg = s.msg ∧ t.finished = true := by
  cases event with
  | read result =>
      obtain ⟨_, -, -, ⟨_, -, rfl⟩ | ⟨_, -, -, -, rfl⟩⟩ := read_cases hstep
      · exact ⟨rfl, hfinished⟩
      · exact ⟨rfl, hfinished⟩
  | readChunk =>
      -- a chunk is appended only as long as the message is there
      obtain ⟨readData, _, hdata, -, ⟨-, rfl⟩ | ⟨hhas, -⟩⟩ := readChunk_cases hstep
      · exact ⟨rfl, hfinished⟩
      · have hopen := (h.hasMsg readData hdata).1.1 hhas
        rw [hfinished] at hopen
        cases hopen
  | finish =>
      obtain ⟨hopen, -⟩ := finish_cases hstep
      rw [hfinished] at hopen
      cases hopen
  | sendHeaders =>
      rw [sendHeaders_cases hstep]
      exact ⟨rfl, hfinished⟩
  | sendBytes n =>
      obtain ⟨-, rfl⟩ := sendBytes_cases hstep
      exact ⟨rfl, hfinished⟩
  | terminate =>
      obtain ⟨-, -, rfl⟩ := terminate_cases hstep
      exact ⟨rfl, hfinished⟩

/-! ### The response -/

/-- What the callback of a transition was given. -/
def readResult (τ : Transition Download DownloadEvent) : Option (Except GError Bytes) :=
  match τ.event, τ.before.readData, τ.before.bytesRead with
  | .readChunk, some readData, some result => some (result.map fun n => readData.buffer.take n)
  | _, _, _ => none

/-- What the callbacks of a run were given, in order. -/
def readResults (history : History Download DownloadEvent) : List (Except GError Bytes) :=
  history.reverse.filterMap readResult

/-- After chunks, the callback takes up the response as they have left it. -/
theorem filezStreamReadChunkCb_concat {response : Response} {results : List (Except GError Bytes)}
    {last : Except GError Bytes} (hchunks : ∀ r ∈ results, ∃ byte bytes, r = .ok (byte :: bytes)) :
    filezStreamReadChunkCb response (results ++ [last]) =
      filezStreamReadChunkCb (filezStreamReadChunkCb response results) [last] := by
  induction results generalizing response with
  | nil => rfl
  | cons first results ih =>
      rw [List.forall_mem_cons] at hchunks
      obtain ⟨⟨byte, bytes, rfl⟩, hrest⟩ := hchunks
      rw [List.cons_append, filezStreamReadChunkCb, filezStreamReadChunkCb, ih hrest]

/-- **The callbacks one by one make the response of a request**: as long as the message is not
finished, it is what `filezStreamReadChunkCb` makes of all the results. -/
theorem response_of_run (hrun : Run (Initial stream) step history s)
    (hfinished : s.finished = false) :
    filezStreamReadChunkCb ⟨.ok, [], true⟩ (readResults history) =
        ⟨s.msg.status, s.msg.body, true⟩ ∧
      (s.readData ≠ none → ∀ r ∈ readResults history, ∃ byte bytes, r = .ok (byte :: bytes)) := by
  induction hrun with
  | start h =>
      obtain ⟨buffer, buflen, rfl⟩ := h
      exact ⟨rfl, fun _ => nofun⟩
  | @next history s t event hrun hstep ih =>
      have hconsistent := consistent_of_run hrun
      -- a message that is finished would still be
      have hbefore : s.finished = false := by
        by_contra hdone
        rw [Bool.not_eq_false] at hdone
        rw [(msg_of_finished hconsistent hstep hdone).2] at hfinished
        cases hfinished
      obtain ⟨hresponse, hchunks⟩ := ih hbefore
      -- only callbacks are given something
      have hother : event ≠ .readChunk →
          readResults (⟨s, event, t⟩ :: history) = readResults history := by
        intro hevent
        have hnone : readResult ⟨s, event, t⟩ = none := by
          rw [readResult.eq_def]
          split
          · next heq _ _ => exact absurd heq hevent
          · rfl
        simp [readResults, hnone]
      cases event with
      | read result =>
          rw [hother nofun, hresponse]
          obtain ⟨readData, hdata, -, ⟨_, -, rfl⟩ | ⟨_, -, -, -, rfl⟩⟩ := read_cases hstep
          · exact ⟨rfl, hchunks⟩
          · exact ⟨rfl, fun _ => hchunks (by simp [hdata])⟩
      | readChunk =>
          obtain ⟨readData, result, hdata, hresult, hcases⟩ := readChunk_cases hstep
          have hlast : readResults (⟨s, .readChunk, t⟩ :: history) =
              readResults history ++ [result.map fun n => readData.buffer.take n] := by
            simp [readResults, readResult, hdata, hresult]
          have hchunks := hchunks (by simp [hdata])
          rw [hlast, filezStreamReadChunkCb_concat hchunks, hresponse]
          rcases hcases with ⟨hcleared, -⟩ | ⟨-, ⟨e, rfl, rfl⟩ | ⟨rfl, rfl⟩ | ⟨n, rfl, rfl⟩⟩
          · rw [(hconsistent.hasMsg readData hdata).1.2 hbefore] at hcleared
            cases hcleared
          · exact ⟨rfl, fun hd => absurd rfl hd⟩
          · exact ⟨rfl, fun hd => absurd rfl hd⟩
          · have henough := hconsistent.enough readData _ hdata hresult
            obtain ⟨byte, bytes, hbytes⟩ : ∃ byte bytes,
                readData.buffer.take (n + 1) = byte :: bytes := by
              refine List.exists_cons_of_length_pos ?_
              rw [List.length_take]
              omega
            simp only [Except.map, hbytes]
            refine ⟨rfl, fun _ r hr => ?_⟩
            rcases List.mem_append.1 hr with hr | hr
            · exact hchunks r hr
            · exact ⟨byte, bytes, List.mem_singleton.1 hr⟩
      | finish =>
          obtain ⟨-, rfl⟩ := finish_cases hstep
          cases hfinished
      | sendHeaders =>
          rw [hother nofun, sendHeaders_cases hstep]
          exact ⟨hresponse, hchunks⟩
      | sendBytes n =>
          obtain ⟨-, rfl⟩ := sendBytes_cases hstep
          rw [hother nofun]
          exact ⟨hresponse, hchunks⟩
      | terminate =>
          obtain ⟨-, -, rfl⟩ := terminate_cases hstep
          rw [hother nofun]
          exact ⟨hresponse, hchunks⟩

/-! ### Failures -/

/-- If the client has been told that the request is fine, a body that is completed is the stream. -/
def Whole (stream : Bytes) (s : Download) : Prop :=
  s.sent.status = some .ok → s.msg.completions = 1 → s.msg.body = stream

/-- A response stays whole when a chunk is handled, if nothing fails late. -/
theorem Whole.readChunk (hwhole : s.Whole stream) (h : s.Consistent stream)
    (hstep : s.readChunk = some t) (hearly : FailsEarly ⟨s, .readChunk, t⟩) : t.Whole stream := by
  obtain ⟨readData, result, hdata, hresult, hcases⟩ := readChunk_cases hstep
  obtain ⟨hmsg, hopen⟩ := h.hasMsg readData hdata
  rcases hcases with ⟨-, rfl⟩ | ⟨hhas, hcases⟩
  · exact hwhole
  have hfinished : s.finished = false := hmsg.1 hhas
  have hbody := h.body_eq hfinished
  rw [buffered, hdata, hresult] at hbody
  rcases hcases with ⟨e, rfl, rfl⟩ | ⟨rfl, rfl⟩ | ⟨n, rfl, rfl⟩
  · intro hstatus _
    -- the headers were sent before, so there was nothing left to be read
    rcases hearly rfl hfinished ⟨e, hresult⟩ with hnone | hend
    · rw [show s.sent.status = none from hnone] at hstatus
      cases hstatus
    · rw [show s.remaining = [] from hend, List.append_nil, List.append_nil] at hbody
      exact hbody
  · intro _ _
    simp only [List.take_zero, List.append_nil, h.eof hresult] at hbody
    exact hbody
  · intro _ hone
    rw [show s.msg.completions = 1 from hone] at hopen
    cases hopen

/-- A response stays whole in every event, if nothing fails late. -/
theorem Whole.step (hwhole : s.Whole stream) (h : s.Consistent stream)
    (hstep : s.step event = some t) (hearly : FailsEarly ⟨s, event, t⟩) : t.Whole stream := by
  cases event with
  | read result =>
      obtain ⟨_, -, -, ⟨_, -, rfl⟩ | ⟨_, -, -, -, rfl⟩⟩ := read_cases hstep
      · exact hwhole
      · exact hwhole
  | readChunk => exact hwhole.readChunk h hstep hearly
  | finish =>
      obtain ⟨-, rfl⟩ := finish_cases hstep
      exact hwhole
  -- a body that is completed before the headers go out has its own status in them
  | sendHeaders =>
      rw [sendHeaders_cases hstep]
      exact fun hstatus hone => h.whole hone (Option.some_inj.1 hstatus)
  | sendBytes n =>
      obtain ⟨-, rfl⟩ := sendBytes_cases hstep
      exact hwhole
  | terminate =>
      obtain ⟨-, -, rfl⟩ := terminate_cases hstep
      exact hwhole

/-- A response is whole in every state of a run in which nothing fails late. -/
theorem whole_of_run (hrun : Run (Initial stream) step history s)
    (hearly : ∀ τ ∈ history, FailsEarly τ) : s.Whole stream := by
  induction hrun with
  | start h =>
      obtain ⟨buffer, buflen, rfl⟩ := h
      exact nofun
  | next hrun hstep ih =>
      rw [List.forall_mem_cons] at hearly
      exact (ih hearly.2).step (consistent_of_run hrun) hstep hearly.1

/-- **When a whole response is the stream.** In any order of reads, callbacks and what the client
does, the body is what has been read, is completed once, and stays as it is after the message was
finished. And if no read fails too late, what is delivered with status 200 is the stream. -/
theorem delivers_of_run (hrun : Run (Initial stream) step history s)
    (hearly : ∀ τ ∈ history, FailsEarly τ) :
    s.Reading stream ∧ s.Delivers stream ∧
      ∀ τ ∈ history, τ.before.finished = true →
        τ.after.msg = τ.before.msg ∧ τ.after.finished = true := by
  have hconsistent := consistent_of_run hrun
  refine ⟨hconsistent.toReading, fun hterminated hstatus => ?_, fun τ hτ hfinished => ?_⟩
  · obtain ⟨hbody, hone⟩ := hconsistent.terminated hterminated
    rw [hbody]
    exact whole_of_run hrun hearly hstatus hone
  · obtain ⟨past, -, hpast, hstep⟩ := hrun.of_mem hτ
    exact msg_of_finished (consistent_of_run hpast) hstep hfinished

/-- A stream that is read and sent to its end. -/
theorem delivers_two_bytes :
    ∃ history s, Run (Initial [1, 2]) step history s ∧ s.sent = ⟨some .ok, [1, 2], true⟩ ∧
      s.Reading [1, 2] ∧ s.Delivers [1, 2] ∧
      ∀ τ ∈ history, τ.before.finished = true →
        τ.after.msg = τ.before.msg ∧ τ.after.finished = true := by
  have hrun : ∃ history s, exec step [] (start [1, 2] [] 1024)
      [.read (.ok 1), .readChunk, .sendHeaders, .read (.ok 1), .sendBytes 1, .readChunk,
        .read (.ok 0), .readChunk, .sendBytes 1, .terminate, .finish] = some (history, s) ∧
      s.sent = ⟨some .ok, [1, 2], true⟩ ∧
      ∀ τ ∈ history, ∀ e, τ.before.bytesRead ≠ some (.error e) := by
    refine ⟨_, _, rfl, rfl, ?_⟩
    simp [start]
  obtain ⟨history, s, hexec, hsent, hreads⟩ := hrun
  have hstart : Initial [1, 2] (start [1, 2] [] 1024) := ⟨[], 1024, rfl⟩
  have hrun := Run.of_exec (.start hstart) hexec
  exact ⟨history, s, hrun, hsent,
    delivers_of_run hrun fun τ hτ _ _ ⟨e, he⟩ => absurd he (hreads τ hτ e)⟩

/-- A read that fails after the first byte has been sent: the client gets a whole response with
status 200 and this byte. -/
theorem not_delivers_late_failure :
    ∃ history s, Run (Initial [1, 2]) step history s ∧ s.sent = ⟨some .ok, [1], true⟩ ∧
      ¬ s.Delivers [1, 2] := by
  have hrun : ∃ history s, exec step [] (start [1, 2] [] 1024)
      [.read (.ok 1), .readChunk, .sendHeaders, .sendBytes 1,
        .read (.error ⟨.ioFailed, "Input/output error"⟩), .readChunk, .terminate] =
          some (history, s) ∧ s.sent = ⟨some .ok, [1], true⟩ :=
    ⟨_, _, rfl, rfl⟩
  obtain ⟨history, s, hexec, hsent⟩ := hrun
  have hstart : Initial [1, 2] (start [1, 2] [] 1024) := ⟨[], 1024, rfl⟩
  refine ⟨history, s, Run.of_exec (.start hstart) hexec, hsent, fun h => ?_⟩
  have hbody := h (by rw [hsent]) (by rw [hsent])
  rw [hsent] at hbody
  exact absurd hbody (by decide)

end Download

end Eus
