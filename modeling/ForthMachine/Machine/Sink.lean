/-!
# The output sink

Program output goes to a sink of channels: the primary output and any copies (tees).
Each channel keeps the bytes that reached it. A copy may misbehave in one of three ways:
its flush may fail, it may accept all but the last byte of each write, or it may refuse
every write.

With one channel the machine writes to it directly, and a short count goes unnoticed.
With several, a write goes to each in turn and stops at the first that fails or takes
fewer bytes than offered, which is then a short write. A flush flushes every channel and
reports the first failure. A sink without channels discards everything.

Channels are in-memory: a byte that reaches a channel is in it at once. The buffering layer
that wraps other writers in a `bufio.Writer` is left out, so nothing is held back between a
write and the flush at the end of a line; what the model keeps of a flush is whether a channel
fails it. So a claim that output "has been flushed" after a line holds here of every line.

The main statement is `write_primary`: a lone primary channel keeps every byte.
-/

namespace ForthMachine

/-- How a copy channel behaves. -/
inductive TeeKind where
  /-- Takes every byte; its flush succeeds. -/
  | faithful
  /-- Takes every byte; its flush fails. -/
  | flushFails
  /-- Takes all but the last byte of each write, and says so. -/
  | dropsLast
  /-- Takes nothing and fails every write. -/
  | refuses
  deriving DecidableEq, Repr

/-- A channel: the primary output or a copy. -/
inductive ChannelKind where
  | primary
  | tee (k : TeeKind)
  deriving DecidableEq, Repr

/-- A channel and the bytes that reached it. -/
structure Channel where
  kind : ChannelKind
  data : ByteArray := ByteArray.empty

/-- Why a write or a flush failed. -/
inductive SinkError where
  | shortWrite | teeBroke | flushBroke
  deriving DecidableEq, Repr

/-- The message of a sink error. -/
def SinkError.message : SinkError → String
  | .shortWrite => "short write"
  | .teeBroke => "tee broke"
  | .flushBroke => "flush broke"

/-- Offers bytes to a channel: the channel as changed, how many it took, and any failure. -/
def Channel.accept (c : Channel) (p : ByteArray) : Channel × Nat × Option SinkError :=
  match c.kind with
  | .primary | .tee .faithful | .tee .flushFails => ({ c with data := c.data ++ p }, p.size, none)
  | .tee .dropsLast =>
    ({ c with data := c.data ++ p.extract 0 (p.size - 1) }, p.size - 1, none)
  | .tee .refuses => (c, 0, some .teeBroke)

/-- Flushes a channel. -/
def Channel.flush (c : Channel) : Option SinkError :=
  if c.kind = .tee .flushFails then some .flushBroke else none

/-- Channels, in the order writes reach them. -/
structure Sink where
  channels : List Channel := []

/-- Writes to channels in turn, stopping at a failure or a short count. -/
def writeAll (p : ByteArray) : List Channel → List Channel × Option SinkError
  | [] => ([], none)
  | c :: cs =>
    let (c', n, e) := c.accept p
    match e with
    | some e => (c' :: cs, some e)
    | none =>
      if n ≠ p.size then (c' :: cs, some .shortWrite)
      else
        let (cs', e) := writeAll p cs
        (c' :: cs', e)

/-- Writes bytes to the sink. -/
def Sink.write (s : Sink) (p : ByteArray) : Sink × Option SinkError :=
  match s.channels with
  | [] => (s, none)
  | [c] => let (c', _, e) := c.accept p; (⟨[c']⟩, e)
  | cs => let (cs', e) := writeAll p cs; (⟨cs'⟩, e)

/-- Flushes every channel, reporting the first failure. -/
def Sink.flush (s : Sink) : Option SinkError :=
  (s.channels.filterMap Channel.flush).head?

/-- Adds a copy channel after the existing ones. -/
def Sink.addTee (s : Sink) (k : TeeKind) : Sink := ⟨s.channels ++ [{ kind := .tee k }]⟩

/-- The bytes that reached the first channel of a kind, if there is one. -/
def Sink.captured (s : Sink) (k : ChannelKind) : Option ByteArray :=
  (s.channels.find? (·.kind = k)).map (·.data)

/-- Forgets what reached the channels, keeping the channels. -/
def Sink.drain (s : Sink) : Sink := ⟨s.channels.map fun c => { c with data := ByteArray.empty }⟩

theorem write_primary (d p : ByteArray) :
    Sink.write ⟨[{ kind := .primary, data := d }]⟩ p = (⟨[{ kind := .primary, data := d ++ p }]⟩, none) := by
  rfl

end ForthMachine
