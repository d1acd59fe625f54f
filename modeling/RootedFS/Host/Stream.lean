import RootedFS.Host.Calls

/-!
# Streams

A stream reads and writes a file of the host through a block of bytes. A read fills the block and
answers from it as long as it lasts; written bytes wait in the block until it is full, or until the
stream is flushed, closed, moved out of the block, resized or read past the block. What another
stream does to the file meanwhile is not seen inside the block.

An operation on a stream works on the stream together with its file.

## Main definitions

* `Host.Opened`, `StreamM`: a stream with its file, and computations on it
* `Stream.readBytes`, `Stream.writeBytes`, `Stream.seek`, `Stream.tell`, `Stream.truncate`,
  `Stream.flush`, `Stream.close`
* `Stream.ofFlags`: the stream on a file that was opened with some flags
-/

namespace RootedFS

namespace Host

/-- A stream and its file. -/
structure Opened where
  stream : Stream
  file : Regular

end Host

/-- Computations on a stream; a failure keeps what was done before it. -/
abbrev StreamM := EStateM Fault Host.Opened

namespace Host.Stream

/-- The number of bytes in a block. -/
def blockSize : Nat := 4096

/-- The largest offset and size of a file. -/
def maxFile : Int := 0x100000000000 - 4096

/-! ## The descriptor -/

/-- The present stream. -/
def current : StreamM Stream :=
  return (← get).stream

/-- Changes the stream. -/
def change (f : Stream → Stream) : StreamM Unit :=
  modify fun o => { o with stream := f o.stream }

/-- Reads up to `count` bytes at the descriptor's offset. -/
def descriptorRead (count : Nat) : StreamM Bytes := do
  let o ← get
  unless o.stream.canRead do throw (.unnamed .badDescriptor)
  let data := o.file.content.slice o.stream.offset count
  change fun s => { s with offset := s.offset + data.length }
  return data

/-- Writes bytes at the descriptor's offset, or at the end of the file where it appends. What keeps
nothing has no offsets but the start. -/
def descriptorWrite (data : Bytes) : StreamM Unit := do
  let o ← get
  unless o.stream.canWrite do throw (.unnamed .badDescriptor)
  let start := if o.stream.appends then o.file.content.length else o.stream.offset
  let stop := if o.file.sink then o.stream.offset else start + data.length
  set ({ o with file := o.file.change (o.file.content.writeAt start data) } : Opened)
  change fun s => { s with offset := stop, known := s.known + data.length }

/-- The offset that a seek of the descriptor leads to. Besides the start, the offset and the end,
a seek may ask for the next data (`3`) or for the end of the data (`4`) from an offset on. On what
keeps nothing, every seek leads to the start. -/
def seekTarget (o : Opened) (offset origin : Int) : Except Refusal Nat :=
  let target (n : Int) : Except Refusal Nat :=
    if n < 0 ∨ maxFile < n then .error .invalid else .ok n.toNat
  let size : Int := o.file.content.length
  if o.file.sink then .ok 0
  else if origin = 0 then target offset
  else if origin = 1 then target (o.stream.offset + offset)
  else if origin = 2 then target (size + offset)
  else if offset < 0 ∨ size ≤ offset then .error .outsideData
  else if origin = 3 then target offset
  else target size

/-- Fails where the descriptor only marks a path. -/
def requireFile : StreamM Unit := do
  if (← current).file.isNone then throw (.unnamed .badDescriptor)

/-- Moves the descriptor's offset, of which the stream then knows. -/
def descriptorSeek (offset origin : Int) : StreamM Nat := do
  requireFile
  match seekTarget (← get) offset origin with
  | .ok n =>
    change fun s => { s with offset := n, known := n }
    return n
  | .error why => throw (.unnamed why)

/-! ## The block -/

/-- The bytes of the block that are left to read. -/
def ahead (s : Stream) : Bytes :=
  (s.block.take (s.filled.getD 0)).drop s.cursor

/-- How far the descriptor's offset lies after the stream's position. -/
def lead (s : Stream) : Int :=
  if s.filled.isSome ∨ s.pending.isSome then
    match s.anchor with
    | some anchor => anchor - s.cursor
    | none => 0
  else 0

/-- Reads once from the file into the block, after the bytes that are there already. -/
def fill : StreamM Unit := do
  let s ← current
  let start := s.filled.getD 0
  let data ← descriptorRead (blockSize - start)
  unless data = [] do
    let stop := start + data.length
    change fun s => { s with
      known := s.known + data.length
      block := s.block.take start ++ data
      filled := some stop
      anchor := some stop }

/-- Writes the pending bytes to the file. -/
def writePending : StreamM Unit := do
  let s ← current
  match s.pending with
  | none => pure ()
  | some (start, stop) =>
    if start < stop then
      let back := s.lead + (s.cursor - start)
      unless back = 0 do discard <| descriptorSeek (-back) 1
      descriptorWrite ((s.block.take stop).drop start)
      change fun s => { s with anchor := some stop }
    change fun s => { s with pending := none }

/-- Writes the pending bytes and, where the stream reads, lets go of the bytes read ahead: the
descriptor's offset then is the stream's position. -/
def settle : StreamM Unit := do
  writePending
  if (← current).reads then
    discard <| descriptorSeek (-(← current).lead) 1
    change fun s => { s with filled := none }

/-- The stream with the rest of its block taken by the caller. -/
def takeAhead (s : Stream) : Stream :=
  { s with cursor := s.cursor + s.ahead.length }

/-! ## Reading -/

/-- Reads all that is left. -/
def readAll : StreamM Bytes := do
  let have_ := (← current).ahead
  change takeAhead
  if (← current).writes then settle
  change fun s => { s with filled := none }
  let o ← get
  let rest ← descriptorRead (o.file.content.length - o.stream.offset)
  return have_ ++ rest

/-- Reads `count` bytes where the block has fewer: whole blocks pass it by, and the last part is
read through it. There must be room for all of them. -/
def readOn (count : Nat) : StreamM Bytes := do
  MonadExcept.ofExcept (requireLength count)
  let have_ := (← current).ahead
  change takeAhead
  if (← current).writes then settle
  change fun s => { s with filled := none }
  -- whole blocks are read past the block, and what remains through it
  let missing := count - have_.length
  let whole := missing / blockSize * blockSize
  let direct ← if 0 < whole then descriptorRead whole else pure []
  change fun s => { s with
    known := s.known + direct.length, cursor := 0, anchor := some 0, filled := some 0, block := [] }
  let last := missing - direct.length
  if 0 < last then fill
  let part := (← current).block.take last
  change fun s => { s with cursor := part.length }
  return have_ ++ direct ++ part

/-- Reads up to `size` bytes, or all that are left if `size` is absent or minus one. -/
def readBytes (size : Option Int) : StreamM Bytes := do
  unless (← current).reads do throw (.unsupported .read)
  let size := size.getD (-1)
  unless fitsLong size do throw (.outOfRange .index)
  if size < -1 then throw .negativeCount
  if (← current).closed then throw (.closedStream .read)
  if size = -1 then readAll
  else
    let count := size.toNat
    let s ← current
    if count ≤ s.ahead.length then
      change fun s => { s with cursor := s.cursor + count }
      return s.ahead.take count
    else readOn count

/-! ## Writing -/

/-- Puts bytes into the block at the position. -/
def writeBlock (s : Stream) (data : Bytes) : Stream :=
  let cursor := s.cursor + data.length
  { s with
    block := Bytes.writeAt s.block s.cursor data
    cursor
    filled := s.filled.map (max cursor)
    pending :=
      match s.pending with
      | some (start, stop) => some (min start s.cursor, max stop cursor)
      | none => some (s.cursor, cursor) }

/-- Writes bytes that the rest of the block does not hold: first what is pending; then the bytes
themselves, if they are more than a block. -/
def writeOn (data : Bytes) : StreamM Unit := do
  writePending
  -- the descriptor may still be ahead, by bytes that were read and not taken
  let lead := (← current).lead
  unless lead = 0 do
    discard <| descriptorSeek (-lead) 1
    change fun s => { s with anchor := s.anchor.map fun a => (a - lead).toNat }
  let whole := blockSize < data.length
  if whole then descriptorWrite data
  let rest := if whole then [] else data
  change fun s => { s with
    filled := none, block := rest, pending := some (0, rest.length), cursor := rest.length
    anchor := some 0 }

/-- Writes bytes at the position. -/
def writeBytes (data : Bytes) : StreamM Nat := do
  unless (← current).writes do throw (.unsupported .write)
  if (← current).closed then throw (.closedStream .write)
  let s ← current
  if s.filled.isNone ∧ s.pending.isNone then
    change fun s => { s with cursor := 0, anchor := some 0, block := [] }
  if data.length + (← current).cursor ≤ blockSize then
    change (writeBlock · data)
  else
    writeOn data
  return data.length

/-! ## Position, size and closing -/

/-- The position that a seek within the block leads to, as an offset from the cursor. -/
def withinBlock? (s : Stream) (offset origin : Int) : Option Int :=
  if s.reads ∧ s.ahead ≠ [] ∧ (origin = 0 ∨ origin = 1) then
    let shift := if origin = 0 then offset - (s.known - s.lead) else offset
    if -s.cursor ≤ shift ∧ shift ≤ s.ahead.length then some shift else none
  else none

/-- Moves the position; inside the block nothing is read or written. -/
def seek (offset origin : Int) : StreamM Nat := do
  unless fitsInt origin do throw (.outOfRange .int)
  if origin < 0 ∨ 4 < origin then throw (.unsupportedOrigin origin)
  if (← current).closed then throw (.closedStream .seek)
  if (← current).file.isNone then throw (.unsupported .seek)
  unless fitsLong offset do throw .offsetOutOfRange
  let s ← current
  match s.withinBlock? offset origin with
  | some shift =>
    change fun s => { s with cursor := (s.cursor + shift).toNat }
    return (s.known - s.ahead.length + shift).toNat
  | none =>
    if s.writes then writePending
    -- a relative seek counts from the stream's position, and the descriptor may be ahead of it
    let lead := (← current).lead
    let n ← descriptorSeek (if origin = 1 then offset - lead else offset) origin
    change fun s => { s with anchor := none, filled := none }
    return n

/-- The position. -/
def tell : StreamM Nat := do
  if (← current).closed then throw (.closedStream .inspect)
  requireFile
  change fun s => { s with known := s.offset }
  let s ← current
  return (s.offset - s.lead).toNat

/-- Sets the size of the file, to the position if none is given; a longer file is filled with
zeros. -/
def truncate (size : Option Int) : StreamM Nat := do
  if (← current).closed then throw (.closedStream .truncate)
  unless (← current).writes do throw (.unsupported .truncate)
  settle
  if size.isNone then requireFile
  let size := size.getD (← current).offset
  unless fitsLong size do throw (.outOfRange .long)
  if size < 0 then throw (.unnamed .invalid)
  requireFile
  if (← get).file.sink then throw (.unnamed .invalid)
  if maxFile < size then throw (.unnamed .fileTooLarge)
  modify fun o => { o with file := o.file.change (o.file.content.resize size.toNat) }
  change fun s => { s with known := s.offset }
  return size.toNat

/-- Hands the pending bytes to the file. -/
def flush : StreamM Unit := do
  let s ← current
  if s.closed then throw (.closedStream (if s.writes then .flush else .settle))
  if s.writes then settle

/-- Hands the pending bytes to the file and closes; a closed stream stays closed. -/
def close : StreamM Unit := do
  unless (← current).closed do
    -- closed also if the pending bytes cannot be written
    try flush finally change fun s => { s with closed := true }

/-- The stream on a file of some size, or on a path that is only marked, that was opened with some
flags. -/
def ofFlags (flags : OpenFlags) (file : Option Nat) (size : Nat) : Stream :=
  let access := flags.bits % 4
  let writes := access = 1 ∨ access = 2
  let start := if writes ∧ flags.append then size else 0
  { file
    canRead := file.isSome ∧ (access = 0 ∨ access = 2)
    canWrite := file.isSome ∧ writes
    appends := flags.append
    reads := access ≠ 1
    writes
    offset := start
    known := start }

/-- Whether a stream cannot do without a position in its file: one that reads and writes, or
that begins at the end. -/
def needsPosition (s : Stream) : Bool :=
  s.writes && (s.reads || s.appends)

end Host.Stream

namespace Host

/-- Adds a stream on a file, or on a path that is only marked. -/
def openStream (flags : OpenFlags) (file : Option Nat) : HostM Nat := do
  let h ← get
  let size := (file.map fun n => (h.file n).content.length).getD 0
  let stream := Stream.ofFlags flags file size
  if file.isNone && stream.needsPosition then throw (.unnamed .badDescriptor)
  modifyGet fun h => (h.streams.length, { h with streams := h.streams ++ [stream] })

/-- Runs a computation on the stream with a number; there are no streams but those that were
opened. -/
def onStream {α : Type} (id : Nat) (act : StreamM α) : HostM α := fun h =>
  match h.streams[id]? with
  | none => .error (.closedStream .inspect) h
  | some stream =>
    let keep (o : Opened) : Host :=
      { h with
        files := (stream.file.map fun n => h.files.set n o.file).getD h.files
        streams := h.streams.set id o.stream }
    match act ⟨stream, (stream.file.map h.file).getD (.owned [] 0)⟩ with
    | .ok a o => .ok a (keep o)
    | .error f o => .error f (keep o)

end Host

end RootedFS
