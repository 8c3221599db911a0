import Mathlib
import ForthMachine.Input.Queue

/-!
# A queue of streams reads back their lines

Calls for the next line of a queue of streams return the lines of `readLines`: for each stream
in turn, one line per piece that ends with a line feed and one for a last piece without one,
numbered from 1 in each stream and without their trailing carriage returns and line feeds;
then that the input is over, on every later call. How the streams deliver their bytes does not
matter, nor how large the read buffer is.

The argument runs at three levels. A buffered reader holds the bytes read ahead and the pieces
not yet read; what it holds in all (`Buffered.content`) is what a call takes its line from, so
that each call takes the first piece of the content whatever the reads were
(`Buffered.readLine_spec`). A queue holds the lines still to come (`Queue.remaining`): the rest
of the stream being read, numbered on from its last line, then the lines of the streams not yet
opened. Each call returns the first of them, or answers that the input is over when there are
none (`Queue.readLine_step`), and by induction so do `n` calls (`Queue.readMany_spec`).

A queue closes each stream that can be closed once, in order, when it meets the stream's end:
the streams closed are those of a prefix of the queue whose lines were all returned
(`Queue.Tracks`).

The main statement is `queue_reads_lines`.
-/

namespace ForthMachine.Input

open ForthMachine.Text

/-! ## Pieces of a line -/

theorem splitAtNewline_eq_dropWhile (bs : Bytes) :
    splitAtNewline bs = match bs.dropWhile (· ≠ 0x0A) with
      | [] => none
      | _ :: post => some (bs.takeWhile (· ≠ 0x0A) ++ [0x0A], post) := by
  unfold splitAtNewline
  rw [List.span_eq_takeWhile_dropWhile]
  cases bs.dropWhile (· ≠ 0x0A) <;> rfl

theorem splitAtNewline_nil : splitAtNewline [] = none := rfl

theorem splitAtNewline_newline (rest : Bytes) : splitAtNewline (0x0A :: rest) = some ([0x0A], rest) := by
  simp [splitAtNewline_eq_dropWhile]

theorem splitAtNewline_cons_of_ne {b : UInt8} (hb : b ≠ 0x0A) (rest : Bytes) :
    splitAtNewline (b :: rest) = (splitAtNewline rest).map fun (l, r) => (b :: l, r) := by
  simp only [splitAtNewline_eq_dropWhile, List.dropWhile_cons, List.takeWhile_cons, ne_eq,
    decide_eq_true_eq, hb, not_false_eq_true, if_true]
  cases rest.dropWhile (· ≠ 0x0A) <;> rfl

/-- A piece found in the front of some bytes is found again when more bytes follow. -/
theorem splitAtNewline_append_of_some {a x line rest : Bytes}
    (h : splitAtNewline a = some (line, rest)) : splitAtNewline (a ++ x) = some (line, rest ++ x) := by
  induction a generalizing line with
  | nil => simp [splitAtNewline_nil] at h
  | cons b a ih =>
    by_cases hb : b = 0x0A
    · subst hb
      rw [splitAtNewline_newline] at h
      obtain ⟨rfl, rfl⟩ := Prod.mk.inj (Option.some.inj h)
      rw [List.cons_append, splitAtNewline_newline]
    · rw [splitAtNewline_cons_of_ne hb] at h
      obtain ⟨⟨l, r⟩, hl, hlr⟩ := Option.map_eq_some_iff.mp h
      obtain ⟨rfl, rfl⟩ := Prod.mk.inj hlr
      rw [List.cons_append, splitAtNewline_cons_of_ne hb, ih hl]
      rfl

/-- Bytes without a line feed go in front of the first piece of what follows them. -/
theorem splitAtNewline_append_of_none {a : Bytes} (h : splitAtNewline a = none) (x : Bytes) :
    splitAtNewline (a ++ x) = (splitAtNewline x).map fun (l, r) => (a ++ l, r) := by
  induction a with
  | nil => simp
  | cons b a ih =>
    by_cases hb : b = 0x0A
    · subst hb
      simp [splitAtNewline_newline] at h
    · rw [splitAtNewline_cons_of_ne hb, Option.map_eq_none_iff] at h
      rw [List.cons_append, splitAtNewline_cons_of_ne hb, ih h, Option.map_map]
      rfl

/-- A piece found by `splitAtNewline` ends with its line feed, so it is never empty. -/
theorem ne_nil_of_splitAtNewline {bs line rest : Bytes} (h : splitAtNewline bs = some (line, rest)) :
    line ≠ [] := by
  rw [splitAtNewline_eq_dropWhile] at h
  split at h
  · cases h
  · cases h
    simp

/-- The bytes split at a line feed are the bytes themselves. -/
theorem splitAtNewline_append_eq {bs line rest : Bytes} (h : splitAtNewline bs = some (line, rest)) :
    line ++ rest = bs := by
  induction bs generalizing line with
  | nil => simp [splitAtNewline_nil] at h
  | cons b bs ih =>
    by_cases hb : b = 0x0A
    · subst hb
      rw [splitAtNewline_newline] at h
      obtain ⟨rfl, rfl⟩ := Prod.mk.inj (Option.some.inj h)
      rfl
    · rw [splitAtNewline_cons_of_ne hb] at h
      obtain ⟨⟨l, r⟩, hl, hlr⟩ := Option.map_eq_some_iff.mp h
      obtain ⟨rfl, rfl⟩ := Prod.mk.inj hlr
      rw [List.cons_append, ih hl]

theorem splitLines_go_eq (bs acc : Bytes) :
    splitLines.go bs acc = match splitAtNewline bs with
      | some (line, rest) => (acc.reverse ++ line) :: splitLines.go rest []
      | none => if acc.reverse ++ bs = [] then [] else [acc.reverse ++ bs] := by
  induction bs generalizing acc with
  | nil => simp [splitLines.go, splitAtNewline_nil]
  | cons b rest ih =>
    by_cases hb : b = 0x0A
    · subst hb
      simp [splitLines.go, splitAtNewline_newline]
    · rw [splitLines.go, if_neg hb, ih, splitAtNewline_cons_of_ne hb]
      cases splitAtNewline rest with
      | none => simp
      | some p => simp

/-- The pieces of a stream: the first one up to its line feed and the pieces of the rest, or,
without a line feed, the whole when it is not empty. -/
theorem splitLines_eq (bs : Bytes) :
    splitLines bs = match splitAtNewline bs with
      | some (line, rest) => line :: splitLines rest
      | none => if bs = [] then [] else [bs] := by
  rw [splitLines, splitLines_go_eq]
  cases splitAtNewline bs <;> rfl

/-! ## The lines still to come -/

/-- The lines of `bs` in a stream `name`, numbered on after line `k`. -/
def linesFrom (name : String) (k : Nat) (bs : Bytes) : List Line :=
  ((splitLines bs).zipIdx k).map fun (piece, i) => ⟨⟨name, i + 1⟩, trimLineEnd piece⟩

theorem Stream.lines_eq_linesFrom (s : Stream) : s.lines = linesFrom s.name 0 s.data := rfl

theorem linesFrom_nil (name : String) (k : Nat) : linesFrom name k [] = [] := by
  simp [linesFrom, splitLines_eq, splitAtNewline_nil]

theorem linesFrom_of_some {name : String} {k : Nat} {bs line rest : Bytes}
    (h : splitAtNewline bs = some (line, rest)) :
    linesFrom name k bs = ⟨⟨name, k + 1⟩, trimLineEnd line⟩ :: linesFrom name (k + 1) rest := by
  simp [linesFrom, splitLines_eq bs, h]

theorem linesFrom_of_none {name : String} {k : Nat} {bs : Bytes} (h : splitAtNewline bs = none)
    (hne : bs ≠ []) : linesFrom name k bs = [⟨⟨name, k + 1⟩, trimLineEnd bs⟩] := by
  simp [linesFrom, splitLines_eq bs, h, hne]

/-! ## A buffered reader -/

/-- Everything a buffered reader still holds: the bytes read ahead, then the pieces not read. -/
def Buffered.content (b : Buffered) : Bytes := b.ahead ++ b.pending.flatten

/-- Once a read reported the end, no piece is left to read. -/
def Buffered.Sound (b : Buffered) : Prop := b.ended = true → b.pending = []

theorem Buffered.content_open (s : Source) : (Buffered.open s).content = s.content := by
  simp [Buffered.open, Buffered.content, Source.content]

theorem Buffered.sound_open (s : Source) : (Buffered.open s).Sound := by
  simp [Buffered.Sound, Buffered.open]

/-- A read hands over bytes from the front of the pieces, and reports the end only once none is
left. -/
theorem readPieces_content (e : Bool) (room : Nat) (ps : List Bytes) :
    (readPieces e room ps).1 ++ (readPieces e room ps).2.2.flatten = ps.flatten ∧
      ((readPieces e room ps).2.1 = true → (readPieces e room ps).2.2 = []) := by
  cases ps with
  | nil => simp [readPieces]
  | cons p qs =>
    unfold readPieces
    by_cases hp : p.length ≤ room
    · simp only [if_pos hp, List.flatten_cons, Bool.and_eq_true, List.isEmpty_iff, true_and]
      exact fun h => h.2
    · simp [if_neg hp, ← List.append_assoc]

/-- A call on a sound reader takes the first piece of its content, whatever it had read ahead:
up to and including the first line feed, or, without one, the whole content, meeting the end.
The reader after it holds the rest and is sound. -/
theorem Buffered.readLine_spec {b : Buffered} (hb : b.Sound) (acc : Bytes) :
    match splitAtNewline b.content with
    | some (line, rest) => (b.readLine acc).1 = acc ++ line ∧ (b.readLine acc).2.1 = false ∧
        (b.readLine acc).2.2.content = rest ∧ (b.readLine acc).2.2.Sound
    | none => (b.readLine acc).1 = acc ++ b.content ∧ (b.readLine acc).2.1 = true ∧
        (b.readLine acc).2.2.content = [] ∧ (b.readLine acc).2.2.Sound := by
  fun_induction b.readLine acc with
  | case1 b acc line rest hsplit =>
    -- a line feed among the bytes read ahead ends the line there
    rw [Buffered.content, splitAtNewline_append_of_some hsplit]
    exact ⟨rfl, rfl, rfl, hb⟩
  | case2 b acc hsplit he =>
    -- the end was reported, so the bytes read ahead are all there is
    have hp : b.pending = [] := hb he
    simp only [Buffered.content, hp, List.flatten_nil, List.append_nil, hsplit]
    exact ⟨trivial, trivial, trivial, by simp [Buffered.Sound]⟩
  | case3 b acc hsplit he hf ih =>
    -- a full buffer goes into the line, and the line goes on in what follows
    have hc : b.content = b.ahead ++ ({ b with ahead := [] } : Buffered).content := rfl
    rw [hc, splitAtNewline_append_of_none hsplit]
    specialize ih hb
    revert ih
    cases splitAtNewline ({ b with ahead := [] } : Buffered).content with
    | none => simp
    | some p => simp
  | case4 b acc hsplit he hf bs eof rest hr ih =>
    -- a read moves bytes from the pieces into the buffer and keeps the content
    obtain ⟨hcontent, hend⟩ := readPieces_content b.endsWithLast (bufferSize - b.ahead.length) b.pending
    rw [hr] at hcontent hend
    have hc : ({ b with ahead := b.ahead ++ bs, ended := eof, pending := rest } : Buffered).content =
        b.content := by
      simp only [Buffered.content, List.append_assoc, hcontent]
    rw [← hc]
    exact ih hend

/-! ## The queue -/

/-- The lines a queue has still to return: the rest of the stream being read, numbered on from
its last line, then the lines of the streams not yet opened. -/
def Queue.remaining (q : Queue) : List Line :=
  (match q.current with
    | some (s, b) => linesFrom s.name q.loc.line b.content
    | none => []) ++ readLines (q.waiting.map Source.stream)

/-- The streams a queue has not yet closed or passed: the one being read and those waiting. -/
def Queue.unread (q : Queue) : List Source := (q.current.map Prod.fst).toList ++ q.waiting

/-- What a queue reading `sources` keeps true between calls: the stream being read has a sound
reader, its location names it, and the lines still to come of it are the last lines of the
stream; the streams before it were passed in order, the closers among them closed. -/
structure Queue.Tracks (sources : List Source) (q : Queue) : Prop where
  sound : ∀ s b, q.current = some (s, b) → b.Sound
  named : ∀ s b, q.current = some (s, b) → q.loc.name = s.name
  suffix : ∀ s b, q.current = some (s, b) → linesFrom s.name q.loc.line b.content <:+ s.stream.lines
  passed : ∃ pre, sources = pre ++ q.unread ∧ q.closed = pre.filter (·.closer)

theorem Queue.tracks_start (sources : List Source) : (Queue.start sources).Tracks sources where
  sound _ _ h := by simp [Queue.start] at h
  named _ _ h := by simp [Queue.start] at h
  suffix _ _ h := by simp [Queue.start] at h
  passed := ⟨[], by simp [Queue.start, Queue.unread]⟩

theorem Queue.remaining_start (sources : List Source) :
    (Queue.start sources).remaining = readLines (sources.map Source.stream) := by
  simp [Queue.remaining, Queue.start]

/-- Closing the stream being read moves it to the streams passed. -/
theorem Queue.Tracks.closeCurrent {sources : List Source} {q : Queue} {s : Source} {b : Buffered}
    (h : q.Tracks sources) (hc : q.current = some (s, b)) : q.closeCurrent.Tracks sources where
  sound _ _ h' := by simp [Queue.closeCurrent, hc] at h'
  named _ _ h' := by simp [Queue.closeCurrent, hc] at h'
  suffix _ _ h' := by simp [Queue.closeCurrent, hc] at h'
  passed := by
    obtain ⟨pre, hpre, hclosed⟩ := h.passed
    refine ⟨pre ++ [s], ?_, ?_⟩
    · simpa [Queue.unread, Queue.closeCurrent, hc] using hpre
    · simp only [Queue.closeCurrent, hc, hclosed, List.filter_append, List.filter_singleton]
      split <;> simp_all

theorem Queue.closeCurrent_current (q : Queue) : q.closeCurrent.current = none := by
  unfold Queue.closeCurrent
  split <;> simp_all

theorem Queue.closeCurrent_waiting (q : Queue) : q.closeCurrent.waiting = q.waiting := by
  unfold Queue.closeCurrent
  split <;> rfl

/-- Opening the next stream keeps what the queue tracks. -/
theorem Queue.Tracks.openStream {sources : List Source} {q : Queue} {s : Source} {rest : List Source}
    (h : q.Tracks sources) (hc : q.current = none) (hw : q.waiting = s :: rest) :
    (q.openStream s rest).Tracks sources where
  sound _ _ h' := by
    obtain ⟨rfl, rfl⟩ := Prod.mk.inj (Option.some.inj h')
    exact Buffered.sound_open _
  named _ _ h' := by
    obtain ⟨rfl, rfl⟩ := Prod.mk.inj (Option.some.inj h')
    rfl
  suffix _ _ h' := by
    obtain ⟨rfl, rfl⟩ := Prod.mk.inj (Option.some.inj h')
    rw [Queue.openStream_loc, Buffered.content_open, Stream.lines_eq_linesFrom]
    exact List.suffix_refl _
  passed := by
    obtain ⟨pre, hpre, hclosed⟩ := h.passed
    exact ⟨pre, by simpa [Queue.unread, hc, hw] using hpre, hclosed⟩

/-- Opening the next stream puts all its lines first among those to come. -/
theorem Queue.remaining_openStream {q : Queue} {s : Source} {rest : List Source}
    (hc : q.current = none) (hw : q.waiting = s :: rest) :
    (q.openStream s rest).remaining = q.remaining := by
  simp [Queue.remaining, hc, hw, Buffered.content_open, readLines, Source.stream,
    Stream.lines_eq_linesFrom]

/-- Taking the next line of the stream being read keeps what the queue tracks, when the reader
after it is sound and holds the rest of the lines. -/
theorem Queue.Tracks.advance {sources : List Source} {q : Queue} {s : Source} {b b' : Buffered}
    {text : Bytes} (h : q.Tracks sources) (hc : q.current = some (s, b)) (hb' : b'.Sound)
    (hsuf : linesFrom s.name (q.loc.line + 1) b'.content <:+ linesFrom s.name q.loc.line b.content) :
    (q.advance s b' text).Tracks sources where
  sound _ _ h' := by
    obtain ⟨rfl, rfl⟩ := Prod.mk.inj (Option.some.inj h')
    exact hb'
  named _ _ h' := by
    obtain ⟨rfl, rfl⟩ := Prod.mk.inj (Option.some.inj h')
    exact h.named s b hc
  suffix _ _ h' := by
    obtain ⟨rfl, rfl⟩ := Prod.mk.inj (Option.some.inj h')
    exact hsuf.trans (h.suffix _ _ hc)
  passed := by
    obtain ⟨pre, hpre, hclosed⟩ := h.passed
    exact ⟨pre, by simpa [Queue.unread, hc] using hpre, hclosed⟩

/-- A call that takes no bytes met the end of a reader that held nothing. -/
theorem Buffered.content_eq_nil_of_readLine {b : Buffered} (hb : b.Sound)
    (h : (b.readLine []).1 = []) : b.content = [] := by
  have hspec := Buffered.readLine_spec hb []
  revert hspec
  cases hs : splitAtNewline b.content with
  | some p =>
    intro hspec
    rw [hspec.1, List.nil_append] at h
    exact absurd h (ne_nil_of_splitAtNewline hs)
  | none =>
    intro hspec
    rwa [hspec.1, List.nil_append] at h

theorem Queue.remaining_of_some {q : Queue} {s : Source} {b : Buffered} {line rest : Bytes}
    (hc : q.current = some (s, b)) (hs : splitAtNewline b.content = some (line, rest)) :
    q.remaining = ⟨⟨s.name, q.loc.line + 1⟩, trimLineEnd line⟩ ::
      (linesFrom s.name (q.loc.line + 1) rest ++ readLines (q.waiting.map Source.stream)) := by
  simp [Queue.remaining, hc, linesFrom_of_some hs]

theorem Queue.remaining_of_none {q : Queue} {s : Source} {b : Buffered}
    (hc : q.current = some (s, b)) (hs : splitAtNewline b.content = none) (hne : b.content ≠ []) :
    q.remaining = ⟨⟨s.name, q.loc.line + 1⟩, trimLineEnd b.content⟩ ::
      readLines (q.waiting.map Source.stream) := by
  simp [Queue.remaining, hc, linesFrom_of_none hs hne]

/-- One call for the next line returns the first line still to come, or, when none is left,
answers that the input is over, having opened and closed every stream left. -/
theorem Queue.readLine_step {sources : List Source} {q : Queue} (h : q.Tracks sources) :
    q.readLine.2.Tracks sources ∧
    match q.remaining with
    | [] => q.readLine.1 = none ∧ q.readLine.2.remaining = [] ∧ q.readLine.2.unread = []
    | l :: ls => q.readLine.1 = some l ∧ q.readLine.2.remaining = ls := by
  fun_induction Queue.readLine q with
  | case1 q hc hw =>
    -- nothing open and nothing waiting: the input is over
    have hr : q.remaining = [] := by simp [Queue.remaining, hc, hw, readLines]
    simp only [hr, true_and]
    exact ⟨h, by simp [Queue.unread, hc, hw]⟩
  | case2 q hc s rest hw ih =>
    -- the next stream opens with all its lines to come
    apply Queue.remaining_openStream hc hw ▸ ih
    exact h.openStream hc hw
  | case3 q s b hc text atEnd b' hread hempty ih =>
    -- the stream being read is drained: it is closed and the queue goes on
    have hcontent : b.content = [] :=
      Buffered.content_eq_nil_of_readLine (h.sound s b hc) (by rw [hread]; exact List.isEmpty_iff.mp hempty)
    have hr : q.closeCurrent.remaining = q.remaining := by
      simp [Queue.remaining, hc, hcontent, linesFrom_nil, Queue.closeCurrent_current,
        Queue.closeCurrent_waiting]
    rw [← hr]
    exact ih (h.closeCurrent hc)
  | case4 q s b hc text atEnd b' hread hempty =>
    -- the next piece of the stream being read is its next line
    have hspec := Buffered.readLine_spec (h.sound s b hc) []
    rw [hread] at hspec
    have hname := h.named s b hc
    cases hs : splitAtNewline b.content with
    | some p =>
      obtain ⟨line, rest⟩ := p
      rw [hs] at hspec
      obtain ⟨htext, hend, hb', hsound'⟩ := hspec
      simp only [List.nil_append] at htext hb' hsound'
      subst htext hend
      rw [Queue.remaining_of_some hc hs]
      refine ⟨h.advance hc hsound' (by rw [hb', linesFrom_of_some hs]; exact List.suffix_cons _ _), ?_, ?_⟩
      · simp +zetaDelta [hname]
      · simp +zetaDelta [Queue.remaining, hb']
    | none =>
      rw [hs] at hspec
      obtain ⟨htext, hend, hb', hsound'⟩ := hspec
      simp only [List.nil_append] at htext hb' hsound'
      subst htext hend
      have hne : b.content ≠ [] := by simpa using hempty
      rw [Queue.remaining_of_none hc hs hne]
      have ht : (q.advance s b' b.content).Tracks sources :=
        h.advance hc hsound' (by rw [hb', linesFrom_nil]; exact List.nil_suffix)
      refine ⟨ht.closeCurrent (Queue.advance_current _ _ _ _), ?_, ?_⟩
      · simp +zetaDelta [hname]
      · simp +zetaDelta [Queue.remaining, Queue.closeCurrent_current, Queue.closeCurrent_waiting]

/-- Answers to `n` calls, past the lines: the lines padded with the answer that the input is
over. Padding further changes nothing within the first `n`. -/
theorem take_map_some_append_replicate (ls : List Line) (n : Nat) :
    (ls.map some ++ List.replicate (n + 1) none).take n = (ls.map some ++ List.replicate n none).take n := by
  simp only [List.take_append, List.take_replicate]
  congr 2
  omega

/-- `n` calls return the first `n` lines still to come, padded with answers that the input is
over; once the lines run out the queue has passed every stream. -/
theorem Queue.readMany_spec {sources : List Source} {q : Queue} (h : q.Tracks sources) (n : Nat) :
    (q.readMany n).2.Tracks sources ∧
    (q.readMany n).1 = (q.remaining.map some ++ List.replicate n none).take n ∧
    (q.readMany n).2.remaining = q.remaining.drop n ∧
    (q.remaining.length < n → (q.readMany n).2.unread = []) := by
  induction n generalizing q with
  | zero => exact ⟨h, by simp [Queue.readMany], rfl, fun h0 => absurd h0 (Nat.not_lt_zero _)⟩
  | succ n ih =>
    obtain ⟨h', hstep⟩ := Queue.readLine_step h
    obtain ⟨ht, hrs, hrem, hunread⟩ := ih h'
    simp only [Queue.readMany]
    refine ⟨ht, ?_⟩
    cases hq : q.remaining with
    | nil =>
      -- no line is left: this call and every later one answer that the input is over
      rw [hq] at hstep
      obtain ⟨hnone, hrem', hunread'⟩ := hstep
      rw [hrem'] at hrs hrem hunread
      refine ⟨by simp [hnone, hrs, List.take_replicate, List.replicate_succ], by simp [hrem], fun _ => ?_⟩
      cases n with
      | zero => simpa [Queue.readMany] using hunread'
      | succ n => exact hunread (Nat.succ_pos n)
    | cons l ls =>
      -- the first line still to come is this call's answer
      rw [hq] at hstep
      obtain ⟨hsome, hrem'⟩ := hstep
      rw [hrem'] at hrs hrem hunread
      refine ⟨?_, by simp [hrem], fun hlt => hunread (by simpa using hlt)⟩
      rw [hsome, hrs, List.map_cons, List.cons_append, List.take_succ_cons,
        take_map_some_append_replicate]

/-- The lines still to come are at most those of the streams not yet passed. -/
theorem Queue.Tracks.remaining_length_le {sources : List Source} {q : Queue} (h : q.Tracks sources) :
    q.remaining.length ≤ (readLines (q.unread.map Source.stream)).length := by
  unfold Queue.remaining Queue.unread
  cases hc : q.current with
  | none => simp
  | some p =>
    obtain ⟨s, b⟩ := p
    have hsuf := (h.suffix s b hc).length_le
    simp only [Option.map_some, Option.toList_some, List.cons_append, List.nil_append,
      List.map_cons, readLines, List.flatMap_cons, List.length_append] at hsuf ⊢
    omega

/-- Reading a queue of streams line by line: whatever pieces the streams deliver their bytes in,
`n` calls for the next line return the first `n` lines of the streams, in order, one for each
piece up to a line feed and one for a last piece without one, each named by its stream and
numbered from 1 in it, its trailing carriage returns and line feeds removed; every call past them
answers that the input is over. The streams closed by then are the closers of a prefix of the
queue, each once and in order, and only once all its lines were returned; after a call past the
lines every closer has been closed. -/
theorem queue_reads_lines (sources : List Source) (n : Nat) :
    ((Queue.start sources).readMany n).1 =
      ((readLines (sources.map Source.stream)).map some ++ List.replicate n none).take n ∧
    (∃ pre, pre <+: sources ∧ ((Queue.start sources).readMany n).2.closed = pre.filter (·.closer) ∧
      (readLines (pre.map Source.stream)).length ≤ n) ∧
    ((readLines (sources.map Source.stream)).length < n →
      ((Queue.start sources).readMany n).2.closed = sources.filter (·.closer)) := by
  obtain ⟨ht, hrs, hrem, hunread⟩ := Queue.readMany_spec (Queue.tracks_start sources) n
  rw [Queue.remaining_start] at hrs hrem hunread
  obtain ⟨pre, hpre, hclosed⟩ := ht.passed
  refine ⟨hrs, ⟨pre, ⟨_, hpre.symm⟩, hclosed, ?_⟩, fun hlt => ?_⟩
  · -- the lines of the streams passed come before every line still to come
    have hle := ht.remaining_length_le
    have htotal : (readLines (sources.map Source.stream)).length =
        (readLines (pre.map Source.stream)).length +
          (readLines (((Queue.start sources).readMany n).2.unread.map Source.stream)).length := by
      conv_lhs => rw [hpre]
      simp [readLines]
    rw [hrem, List.length_drop] at hle
    omega
  · rw [hclosed, hpre, hunread hlt, List.append_nil]

/-- Every line of a stream has at least one byte. -/
theorem length_splitLines_le (bs : Bytes) : (splitLines bs).length ≤ bs.length := by
  induction h : bs.length using Nat.strong_induction_on generalizing bs with
  | _ n ih =>
    rw [splitLines_eq]
    split
    · rename_i line rest hs
      have hlen : bs.length = line.length + rest.length := by
        rw [← splitAtNewline_append_eq hs, List.length_append]
      have hpos : 0 < line.length := List.length_pos_of_ne_nil (ne_nil_of_splitAtNewline hs)
      have := ih rest.length (by omega) rest rfl
      simp only [List.length_cons]
      omega
    · split
      · simp
      · rename_i hne
        have := List.length_pos_of_ne_nil hne
        simp only [List.length_singleton]
        omega

theorem Stream.length_lines_le (s : Stream) : s.lines.length ≤ s.data.length := by
  simpa [Stream.lines] using length_splitLines_le s.data

theorem Source.stream_whole (name : String) (data : Bytes) (closer : Bool) :
    (Source.whole name data closer).stream = ⟨name, data⟩ := by
  rw [Source.stream, Source.content_whole]
  rfl

/-- Answers that end with one that the input is over: the answers before it are the lines. -/
theorem takeWhile_isSome_map_some (ls : List Line) (k : Nat) :
    ((ls.map some ++ List.replicate (k + 1) none).takeWhile Option.isSome).filterMap id = ls := by
  rw [List.takeWhile_append_of_pos (by simp), List.replicate_succ, List.takeWhile_cons_of_neg (by simp)]
  simp

theorem length_readLines_le (streams : List Stream) :
    (readLines streams).length ≤ (streams.flatMap Stream.data).length := by
  induction streams with
  | nil => simp [readLines]
  | cons s ss ih =>
    have := Stream.length_lines_le s
    simp only [readLines, List.flatMap_cons, List.length_append] at ih ⊢
    omega

/-- Reading streams whole, call after call until the input is over, gives their lines. -/
theorem readQueue_eq (streams : List Stream) : readQueue streams = readLines streams := by
  have hmap : (streams.map fun s => Source.whole s.name s.data true).map Source.stream = streams := by
    simp [Function.comp_def, Source.stream_whole]
  -- there are fewer lines than the calls made, one more than the bytes
  have hfew := length_readLines_le streams
  obtain ⟨hrs, -⟩ := queue_reads_lines (streams.map fun s => Source.whole s.name s.data true)
    ((streams.flatMap Stream.data).length + 1)
  rw [hmap] at hrs
  obtain ⟨k, hk⟩ : ∃ k, (streams.flatMap Stream.data).length + 1 - (readLines streams).length =
      k + 1 := ⟨_, (Nat.succ_pred_eq_of_pos (by omega)).symm⟩
  unfold readQueue
  simp only at hrs ⊢
  rw [hrs, List.take_append, List.take_of_length_le (by simp only [List.length_map]; omega), List.length_map,
    List.take_replicate, Nat.min_eq_left (by omega), hk, takeWhile_isSome_map_some]

end ForthMachine.Input
