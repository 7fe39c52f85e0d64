import Libmc.Common

/-!
# Data blocks and the buffer reader

Received bytes are kept in a list of blocks of fixed capacity. The reader has a read cursor and a
write iterator into the list; a token is a list of slices of blocks. An iterator is the index of
its block, and `end()` is the length of the list; `prepareWriteBlock`, the only place that appends
a block, moves a cursor at `end()` along.
-/

namespace Libmc

/-- `DataBlock`: the `m_size` bytes written so far, `m_capacity` and `m_nBytesRef`. The reference
count is an integer, so that a release below zero would show. -/
structure DataBlock where
  data : Bytes
  capacity : ℕ
  nBytesRef : ℤ
  deriving DecidableEq, Repr

namespace DataBlock

/-- `DataBlock::init`. -/
def init (len : ℕ) : DataBlock := ⟨[], len, 0⟩

/-- `DataBlock::reset`. -/
def reset (b : DataBlock) : DataBlock := { b with data := [], nBytesRef := 0 }

def size (b : DataBlock) : ℕ := b.data.length

def acquire (b : DataBlock) (len : ℕ) : DataBlock := { b with nBytesRef := b.nBytesRef + len }

def release (b : DataBlock) (len : ℕ) : DataBlock := { b with nBytesRef := b.nBytesRef - len }

/-- `DataBlock::occupy`, with the bytes that were put at `getWritePtr`. -/
def occupy (b : DataBlock) (bs : Bytes) : DataBlock :=
  { b with data := b.data ++ bs, nBytesRef := b.nBytesRef + bs.length }

def getWriteLeft (b : DataBlock) : ℕ := b.capacity - b.size

def reusable (b : DataBlock) : Bool := b.nBytesRef = 0

/-- `DataBlock::find` and `DataBlock::findNotNumeric`: the first position from `since` on whose
byte satisfies `p`, or the size. -/
def find (b : DataBlock) (p : UInt8 → Bool) (since : ℕ) : ℕ := since + (b.data.drop since).findIdx p

end DataBlock

/-- `DataCursor`. -/
structure DataCursor where
  iterator : ℕ
  offset : ℕ
  deriving DecidableEq, Repr

/-- `DataBlockSlice`. -/
structure DataBlockSlice where
  iterator : ℕ
  offset : ℕ
  size : ℕ
  deriving DecidableEq, Repr

abbrev TokenData := List DataBlockSlice

/-- The bytes a slice of a list of blocks denotes. -/
def sliceBytes (blocks : List DataBlock) (s : DataBlockSlice) : Bytes :=
  (((blocks[s.iterator]?.map (·.data)).getD []).drop s.offset).take s.size

def tokenBytes (blocks : List DataBlock) (td : TokenData) : Bytes := td.flatMap (sliceBytes blocks)

/-- The sizes of the slices of a token, added up. -/
def tokenSize (td : TokenData) : ℕ := (td.map (·.size)).sum

/-- `freeTokenData`, on the blocks. -/
def freeTokenData (blocks : List DataBlock) (td : TokenData) : List DataBlock :=
  td.foldl (fun bl s => bl.modify s.iterator (·.release s.size)) blocks

/-- `copyTokenData`, on the blocks: the copy has the same slices. -/
def copyTokenData (blocks : List DataBlock) (td : TokenData) : List DataBlock :=
  td.foldl (fun bl s => bl.modify s.iterator (·.acquire s.size)) blocks

/-- `parseTokenData`: the bytes behind the pointer it returns, `none` for `NULL`. A token of one
slice is not copied. -/
def parseTokenData (blocks : List DataBlock) (td : TokenData) (reserved : ℕ) : Option Bytes :=
  if reserved = 0 then none
  else
    match td with
    | [s] => some (((blocks[s.iterator]?.map (·.data)).getD []).drop s.offset |>.take reserved)
    | _ => if tokenSize td > reserved then none else some (tokenBytes blocks td)

/-- `BufferReader`. -/
structure BufferReader where
  dataBlockList : List DataBlock := []
  capacity : ℕ := 0
  size : ℕ := 0
  readLeft : ℕ := 0
  blockReadCursor : DataCursor := ⟨0, 0⟩
  blockWriteIterator : ℕ := 0
  nextPreferedDataBlockSize : ℕ := 0
  deriving DecidableEq, Repr

namespace BufferReader

/-- `BufferReader::reset`. -/
def reset (r : BufferReader) : BufferReader :=
  { r with
    dataBlockList := (r.dataBlockList.take 1).map DataBlock.reset
    capacity := r.capacity - ((r.dataBlockList.drop 1).map (·.capacity)).sum
    size := 0
    readLeft := 0
    blockWriteIterator := 0
    blockReadCursor := ⟨0, 0⟩ }

theorem reset_reset (r : BufferReader) : r.reset.reset = r.reset := by
  unfold reset
  rcases r.dataBlockList with _ | ⟨b, l⟩ <;> simp [DataBlock.reset]

/-- Append a new block for `len` bytes; `minCapacity` is `DataBlock::minCapacity()`. -/
def pushBlock (minCapacity : ℕ) (r : BufferReader) (len : ℕ) : BufferReader :=
  { r with
    dataBlockList := r.dataBlockList ++ [DataBlock.init (max len minCapacity)]
    capacity := r.capacity + max len minCapacity
    blockReadCursor :=
      if r.blockReadCursor.iterator = r.dataBlockList.length then
        { r.blockReadCursor with iterator := r.dataBlockList.length + 1 }
      else r.blockReadCursor
    blockWriteIterator := r.dataBlockList.length }

def writeBlock (r : BufferReader) : DataBlock :=
  r.dataBlockList[r.blockWriteIterator]?.getD (DataBlock.init 0)

/-- A full block is left behind. -/
def leaveFullBlock (r : BufferReader) : BufferReader :=
  if r.blockWriteIterator ≠ r.dataBlockList.length ∧ r.writeBlock.getWriteLeft = 0 then
    { r with blockWriteIterator := r.blockWriteIterator + 1 }
  else r

/-- A new block is created at `end()`. -/
def ensureBlock (minCapacity : ℕ) (r : BufferReader) (len : ℕ) : BufferReader :=
  if r.blockWriteIterator = r.dataBlockList.length then pushBlock minCapacity r len else r

def initReadCursor (r : BufferReader) : BufferReader :=
  if r.readLeft = 0 then { r with blockReadCursor := ⟨r.blockWriteIterator, r.writeBlock.size⟩ }
  else r

/-- `BufferReader::prepareWriteBlock`. -/
def prepareWriteBlock (minCapacity : ℕ) (r : BufferReader) (len : ℕ) : ℕ × BufferReader :=
  let r := initReadCursor (ensureBlock minCapacity (leaveFullBlock r) len)
  (min len r.writeBlock.getWriteLeft, r)

/-- `BufferReader::commitWrite`, with the bytes that were put at `getWritePtr`. The size compared
with the capacity is the one after `occupy`. -/
def commitWrite (r : BufferReader) (bs : Bytes) : BufferReader :=
  let blocks := r.dataBlockList.modify r.blockWriteIterator (·.occupy bs)
  let b := r.writeBlock.occupy bs
  { r with
    dataBlockList := blocks
    blockWriteIterator :=
      if b.size + bs.length = b.capacity then r.blockWriteIterator + 1 else r.blockWriteIterator
    size := r.size + bs.length
    readLeft := r.readLeft + bs.length }

/-- The loop of `BufferReader::write`, at most `n` rounds. -/
def writeLoop (minCapacity : ℕ) : ℕ → BufferReader → Bytes → BufferReader
  | 0, r, _ => r
  | n + 1, r, bs =>
    if bs.length = 0 then r
    else
      let (nAvailable, r) := prepareWriteBlock minCapacity r bs.length
      writeLoop minCapacity n (commitWrite r (bs.take nAvailable)) (bs.drop nAvailable)

/-- `BufferReader::write`. Each round writes at least one byte (`prepareWriteBlock_spec`). -/
def write (minCapacity : ℕ) (r : BufferReader) (bs : Bytes) : BufferReader :=
  writeLoop minCapacity bs.length r bs

/-- The loop of `BufferReader::peek` and the byte it stops at; the blocks are those from the
cursor on. -/
def peekLoop (w : ℕ) : List DataBlock → DataCursor → ℕ → ErrCode × UInt8
  | [], _, _ => (.incompleteBufferErr, 0)
  | b :: bs, cur, offset =>
    if offset = 0 then (.ok, b.data.getD cur.offset 0)
    else if offset < b.size - cur.offset then (.ok, b.data.getD (cur.offset + offset) 0)
    else if cur.iterator ≠ w then
      peekLoop w bs ⟨cur.iterator + 1, 0⟩ (offset - (b.size - cur.offset))
    else (.incompleteBufferErr, 0)

def blocksLeft (r : BufferReader) : List DataBlock := r.dataBlockList.drop r.blockReadCursor.iterator

/-- `BufferReader::peek`. -/
def peek (r : BufferReader) (offset : ℕ) : ErrCode × UInt8 :=
  if offset ≥ r.readLeft then (.incompleteBufferErr, 0)
  else peekLoop r.blockWriteIterator r.blocksLeft r.blockReadCursor offset

/-- The search for `endCur`: the first byte from the cursor on that satisfies `p`, or `end()`. -/
def seek (p : UInt8 → Bool) : List DataBlock → DataCursor → DataCursor
  | [], cur => cur
  | b :: bs, cur =>
    let pos := b.find p cur.offset
    if pos ≠ b.size then { cur with offset := pos } else seek p bs ⟨cur.iterator + 1, 0⟩

/-- A slice, pushed only if it is not empty. -/
def pushSlice (cur : DataCursor) (size : ℕ) : TokenData :=
  if size > 0 then [⟨cur.iterator, cur.offset, size⟩] else []

/-- The slices that the loops up to `endCur` pass over. -/
def slicesTo (endCur : DataCursor) : List DataBlock → DataCursor → TokenData
  | [], _ => []
  | b :: bs, cur =>
    if cur = endCur then []
    else if cur.iterator = endCur.iterator then pushSlice cur (endCur.offset - cur.offset)
    else pushSlice cur (b.size - cur.offset) ++ slicesTo endCur bs ⟨cur.iterator + 1, 0⟩

/-- `BufferReader::readUntil`. -/
def readUntil (r : BufferReader) (value : UInt8) : ErrCode × ℕ × TokenData × BufferReader :=
  let endCur := seek (· == value) r.blocksLeft r.blockReadCursor
  if endCur.iterator = r.dataBlockList.length then (.incompleteBufferErr, 0, [], r)
  else
    let td := slicesTo endCur r.blocksLeft r.blockReadCursor
    (.ok, tokenSize td, td,
      { r with readLeft := r.readLeft - tokenSize td, blockReadCursor := endCur })

/-- `BufferReader::skipUntil`. -/
def skipUntil (r : BufferReader) (value : UInt8) : ErrCode × ℕ × BufferReader :=
  let endCur := seek (· == value) r.blocksLeft r.blockReadCursor
  if endCur.iterator = r.dataBlockList.length then (.incompleteBufferErr, 0, r)
  else
    let td := slicesTo endCur r.blocksLeft r.blockReadCursor
    (.ok, tokenSize td,
      { r with
        dataBlockList := freeTokenData r.dataBlockList td
        readLeft := r.readLeft - tokenSize td
        blockReadCursor := endCur })

/-- `BufferReader::readUnsigned`. -/
def readUnsigned (r : BufferReader) : ErrCode × ℕ × BufferReader :=
  if r.readLeft < 2 then (.incompleteBufferErr, 0, r)
  else
    let endCur := seek (fun c => !isDigit c) r.blocksLeft r.blockReadCursor
    if r.blockReadCursor = endCur then (.programmingErr, 0, r)
    else if endCur.iterator = r.dataBlockList.length then (.incompleteBufferErr, 0, r)
    else
      let td := slicesTo endCur r.blocksLeft r.blockReadCursor
      (.ok, foldDigits 0 (tokenBytes r.dataBlockList td),
        { r with
          dataBlockList := freeTokenData r.dataBlockList td
          readLeft := r.readLeft - tokenSize td
          blockReadCursor := endCur })

/-- The slices that the loops over a length pass over, and the cursor they end at. -/
def slicesFor : List DataBlock → DataCursor → ℕ → TokenData × DataCursor
  | [], cur, _ => ([], cur)
  | b :: bs, cur, len =>
    if len = 0 then ([], cur)
    else
      let maxToRead := b.size - cur.offset
      if len < maxToRead then
        ([⟨cur.iterator, cur.offset, len⟩], { cur with offset := cur.offset + len })
      else
        let (td, endCur) := slicesFor bs ⟨cur.iterator + 1, 0⟩ (len - maxToRead)
        (⟨cur.iterator, cur.offset, maxToRead⟩ :: td, endCur)

/-- `BufferReader::readBytes`. -/
def readBytes (r : BufferReader) (len : ℕ) : ErrCode × TokenData × BufferReader :=
  if len = 0 then (.ok, [], r)
  else if len > r.readLeft then (.incompleteBufferErr, [], r)
  else
    let (td, endCur) := slicesFor r.blocksLeft r.blockReadCursor len
    (.ok, td, { r with readLeft := r.readLeft - len, blockReadCursor := endCur })

/-- `BufferReader::skipBytes`. -/
def skipBytes (r : BufferReader) (len : ℕ) : ErrCode × BufferReader :=
  if len > r.readLeft then (.incompleteBufferErr, r)
  else
    let (td, endCur) := slicesFor r.blocksLeft r.blockReadCursor len
    (.ok,
      { r with
        dataBlockList := freeTokenData r.dataBlockList td
        readLeft := r.readLeft - len
        blockReadCursor := endCur })

/-- Whether `strncmp` finds no difference in `n` bytes, which are there on both sides. -/
def strncmpEq : ℕ → Bytes → Bytes → Bool
  | 0, _, _ => true
  | n + 1, a :: as, b :: bs => a = b && (a = 0 || strncmpEq n as bs)
  | _ + 1, _, _ => false

/-- The loop of `BufferReader::expectBytes`: its code, the slices that are released and the cursor
that it ends at. -/
def expectLoop : List DataBlock → DataCursor → Bytes → ErrCode × TokenData × DataCursor
  | [], cur, _ => (.ok, [], cur)
  | b :: bs, cur, str =>
    if str.length = 0 then (.ok, [], cur)
    else
      let maxToRead := b.size - cur.offset
      if str.length < maxToRead then
        if strncmpEq str.length (b.data.drop cur.offset) str then
          (.ok, [⟨cur.iterator, cur.offset, str.length⟩],
            { cur with offset := cur.offset + str.length })
        else (.programmingErr, [], cur)
      else if strncmpEq maxToRead (b.data.drop cur.offset) str then
        let (err, td, endCur) := expectLoop bs ⟨cur.iterator + 1, 0⟩ (str.drop maxToRead)
        (err, ⟨cur.iterator, cur.offset, maxToRead⟩ :: td, endCur)
      else (.programmingErr, [], cur)

/-- `BufferReader::expectBytes`. What does not match is counted as read. -/
def expectBytes (r : BufferReader) (str : Bytes) : ErrCode × BufferReader :=
  if str.length > r.readLeft then (.incompleteBufferErr, r)
  else
    let (err, td, endCur) := expectLoop r.blocksLeft r.blockReadCursor str
    (err,
      { r with
        dataBlockList := freeTokenData r.dataBlockList td
        readLeft := r.readLeft - str.length
        blockReadCursor := endCur })

/-- `BufferReader::getNextPreferedDataBlockSize`. -/
def getNextPreferedDataBlockSize (minCapacity : ℕ) (r : BufferReader) : ℕ × BufferReader :=
  (if r.nextPreferedDataBlockSize = 0 then minCapacity else r.nextPreferedDataBlockSize,
    { r with nextPreferedDataBlockSize := minCapacity })

/-- `BufferReader::setNextPreferedDataBlockSize`. -/
def setNextPreferedDataBlockSize (r : BufferReader) (n : ℕ) : BufferReader :=
  { r with nextPreferedDataBlockSize := n }

end BufferReader

end Libmc
