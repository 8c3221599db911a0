import ForthMachine.Machine.State

/-!
# The dictionary

Words live in the region, newest last. Each header is preceded by its name bytes, padded
to a whole cell:

    h - pad(len)   name bytes
    h              link to the previous header, or 0
    h + 4          flags, and the name length shifted left by 8
    h + 8          body

Headers link newest first from `latest`, and a link always points lower. A walk of the
dictionary follows the links from `latest` and stops at a link that does not point lower
or cannot be read, so it ends on any memory contents.

Names are truncated to 31 bytes and, unless the machine is case sensitive, ASCII upper
case letters are folded to lower case (bytes that are not UTF-8 become U+FFFD then).

The main statements are `headersFrom_lt` (a walk only goes down) and `foldName_sensitive`.
-/

namespace ForthMachine

open ForthMachine.Text ForthMachine.Memory

/-- A name as the dictionary keeps it: at most 31 bytes, ASCII lower case unless sensitive. -/
def foldName (caseSensitive : Bool) (name : Bytes) : Bytes :=
  let name := name.take maxNameLen
  if caseSensitive then name
  else (decode name).flatMap fun
    | .scalar c => encode (if 0x41 ≤ c && c ≤ 0x5A then c + 32 else c)
    | .stray _ => encode replacement

/-- The headers reached from `h` by following links downward, `h` first. -/
def headersFrom (r : Region) (h : UInt32) : List UInt32 :=
  if h = 0 then [] else
    h :: match r.loadCell h with
      | .ok link => if link < h then headersFrom r link else []
      | .error _ => []
termination_by h.toNat
decreasing_by simp_all [UInt32.lt_iff_toNat_lt]

/-- Every header of the dictionary, newest first. -/
def Machine.headers (m : Machine) : List UInt32 := headersFrom m.region m.latest

/-- The flags and name length recorded in a header. -/
def Machine.wordInfo? (m : Machine) (h : UInt32) : Except AddrError (UInt8 × UInt32) := do
  let info ← m.region.loadCell (h + 4)
  return (info.toUInt8, (info >>> 8) &&& 0xFF)

/-- The flags and name length of a header, or a region error. -/
def wordInfo (h : UInt32) : Vm (UInt8 × UInt32) := do Vm.ofRegion ((← get).wordInfo? h)

/-- The name of a header; empty when it cannot be a valid name. -/
def Machine.wordName (m : Machine) (h : UInt32) : Bytes :=
  match m.wordInfo? h with
  | .error _ => []
  | .ok (_, n) =>
    if n.toNat > maxNameLen || h < n then []
    else match m.region.slice (h - alignUp n) n.toNat with
      | .ok p => p
      | .error _ => []

/-- The flags of a header, zero when they cannot be read. -/
def Machine.wordFlags (m : Machine) (h : UInt32) : UInt8 :=
  match m.wordInfo? h with
  | .ok (f, _) => f
  | .error _ => 0

/-- The newest visible header with a given name. -/
def Machine.lookup (m : Machine) (name : Bytes) : Option UInt32 :=
  let name := foldName m.settings.caseSensitive name
  m.headers.find? fun h =>
    match m.wordInfo? h with
    | .error _ => false
    | .ok (flags, n) => !hasFlag flags flagHidden && n.toNat == name.length &&
        m.wordName h == name

/-- Whether an address is a word header of the dictionary. The walk goes down from the newest
header and stops at the first one at or below the address, which is a header exactly when that
one is it. -/
def Machine.isHeader (m : Machine) (addr : UInt32) : Bool :=
  match m.headers.find? (· ≤ addr) with
  | some h => h == addr
  | none => false

/-- The names of all visible words, newest first. -/
def Machine.words (m : Machine) : List Bytes :=
  m.headers.filterMap fun h =>
    match m.wordInfo? h with
    | .ok (flags, _) => if hasFlag flags flagHidden then none else some (m.wordName h)
    | .error _ => none

/-- Reserves `n` bytes, rounded up to whole cells, at `here`; the space is zeroed. -/
def allocate (n : UInt32) : Vm UInt32 := do
  let n := alignUp n
  let m ← get
  let start := m.here
  if start.toNat + n.toNat > m.dictLimit.toNat then throw (.outOfMemory n (m.dictLimit - start))
  Vm.ofRegion (m.region.check start n.toNat .slice)
  changeRegion (·.fillAt start.toNat 0 n.toNat)
  modify fun m => { m with here := start + n }
  return start

/-- Adds a header with a name and flags, making it the newest word. -/
def define (name : Bytes) (flags : UInt8) : Vm UInt32 := do
  let m ← get
  let name := foldName m.settings.caseSensitive name
  let n := name.length.toUInt32
  let start ← tryCatch (allocate (alignUp n + headerSize)) fun _ => throw (.dictionaryFull name)
  copyIn start name
  let h := start + alignUp n
  storCell h (← get).latest
  storCell (h + 4) (flags.toUInt32 ||| (n <<< 8))
  modify fun m => { m with latest := h }
  trace ":" fun _ =>
    name ++ Bytes.ofString (" @" ++ toString h.toNat ++ " " ++ flagsText flags)
  return h

/-- Sets and clears flags of a header. -/
def setFlags (h : UInt32) (setF clearF : UInt8) : Vm Unit := do
  let info ← loadCell (h + 4)
  storCell (h + 4) ((info &&& ~~~clearF.toUInt32) ||| setF.toUInt32)

/-- Discards the definition being compiled, restoring `here` and `latest`. -/
def abandon : Vm Unit := do
  let m ← get
  if m.openWord ≠ 0 then
    trace "!" fun _ => Bytes.ofString "abandon " ++ quote (m.wordName m.openWord)
    modify fun m => { m with here := m.openHere, latest := m.openLatest, openWord := 0 }

theorem headersFrom_lt (r : Region) (h : UInt32) :
    (headersFrom r h).Pairwise (· > ·) ∧ ∀ x ∈ headersFrom r h, x ≤ h := by
  rw [headersFrom]
  split
  · simp
  · split
    · rename_i link _
      split
      · rename_i hl
        have ⟨p, le⟩ := headersFrom_lt r link
        refine ⟨List.pairwise_cons.mpr ⟨fun x hx => ?_, p⟩, ?_⟩
        · exact UInt32.lt_of_le_of_lt (le x hx) hl
        · intro x hx
          simp at hx
          rcases hx with rfl | hx
          · exact UInt32.le_refl _
          · exact UInt32.le_of_lt (UInt32.lt_of_le_of_lt (le x hx) hl)
      · simp
    · simp
termination_by h.toNat
decreasing_by simp_all [UInt32.lt_iff_toNat_lt]

theorem foldName_sensitive (name : Bytes) : foldName true name = name.take maxNameLen := by
  simp [foldName]

end ForthMachine
