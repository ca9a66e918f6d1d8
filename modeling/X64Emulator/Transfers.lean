import X64Emulator.Readiness

/-!
# Transfers

The six calls that move bytes between a process and a file: reads and writes, those at an offset, and those with several buffers.
-/

namespace X64Emulator

open Outcome

namespace FS

/-- One turn of the loop of `FS::readv`: the number of bytes or an error number, and the buffer. Nothing of `FS::read` but
`OpenFileDescription::read` has an effect. -/
def readBuffer (fs : FS) (host : HostFiles) (d : DescriptionId) (buf : List UInt8) :
    Except FsFailure (FS × Int × List UInt8) := do
  match ← fs.read host d buf.length with
  | (_, .blocked) => .error .verification
  | (fs, .error errno) => .ok (fs, errno, buf)
  | (fs, .bytes data) => do
    require (data.length ≤ buf.length)
    .ok (fs, data.length, data ++ buf.drop data.length)

/-- The loop of `FS::readv`, with the bytes that were read before. -/
def readBuffers (host : HostFiles) (d : DescriptionId) : List (List UInt8) → FS → Int →
    Except FsFailure (FS × Int × List (List UInt8))
  | [], fs, nbytes => .ok (fs, nbytes, [])
  | buf :: rest, fs, nbytes => do
    let (fs, ret, buf) ← fs.readBuffer host d buf
    if ret < 0 then .ok (fs, ret, buf :: rest)
    else do
      let (fs, n, rest) ← readBuffers host d rest fs (nbytes + ret)
      .ok (fs, n, buf :: rest)

/-- `FS::readv` -/
def readv (fs : FS) (host : HostFiles) (d : DescriptionId) (buffers : List (List UInt8)) :
    Except FsFailure (FS × Int × List (List UInt8)) := do
  let ofd ← fs.description d
  let file ← fs.file ofd.file
  let readable ← file.isReadable
  if readable then readBuffers host d buffers fs 0 else .ok (fs, -EBADF, buffers)

/-- `OpenFileDescription::write` -/
def writeDescription (fs : FS) (host : HostFiles) (d : DescriptionId) (buf : List UInt8) : Except FsFailure (FS × Int) := do
  let ofd ← fs.description d
  let (fs, offset, nbytes) ← fs.writeFile host ofd buf
  if nbytes < 0 then .ok (fs.modifyDescription d fun ofd => { ofd with offset := offset }, nbytes)
  else do
    fs.advanceInternalOffset host ofd.file nbytes
    .ok (fs.modifyDescription d fun ofd => { ofd with offset := offset + nbytes }, nbytes)

/-- The loop of `FS::writev`, with the number of bytes that were written before. -/
def writeBuffers (host : HostFiles) (d : DescriptionId) : List (List UInt8) → FS → Int → Except FsFailure (FS × Int)
  | [], fs, nbytes => .ok (fs, nbytes)
  | buf :: rest, fs, nbytes => do
    let (fs, ret) ← fs.writeDescription host d buf
    if ret < 0 then .ok (fs, ret) else writeBuffers host d rest fs (nbytes + ret)

/-- `FS::writev` -/
def writev (fs : FS) (host : HostFiles) (d : DescriptionId) (buffers : List (List UInt8)) : Except FsFailure (FS × Int) := do
  let ofd ← fs.description d
  let file ← fs.file ofd.file
  let writable ← file.isWritable
  if writable then writeBuffers host d buffers fs 0 else .ok (fs, -EBADF)

end FS

/-- The six calls. -/
inductive Transfer where
  | read (count : Nat)
  | pread (count : Nat) (offset : Int)
  | readv (buffers : List (List UInt8))
  | write (buf : List UInt8)
  | pwrite (buf : List UInt8) (offset : Int)
  | writev (buffers : List (List UInt8))

/-- What a transfer gives. -/
inductive TransferAnswer where
  | read (result : ReadResult)
  | count (n : Int) (buffers : List (List UInt8))
deriving DecidableEq, Repr

/-- A transfer through a description. -/
def FS.transfer (fs : FS) (host : HostFiles) (d : DescriptionId) : Transfer → Except FsFailure (FS × TransferAnswer)
  | .read count => do
    let (fs, result) ← fs.read host d count
    .ok (fs, .read result)
  | .pread count offset => do
    let (fs, result) ← fs.pread host d count offset
    .ok (fs, .read result)
  | .readv buffers => do
    let (fs, n, buffers) ← fs.readv host d buffers
    .ok (fs, .count n buffers)
  | .write buf => do
    let (fs, n) ← fs.write host d buf
    .ok (fs, .count n [buf])
  | .pwrite buf offset => do
    let (fs, n) ← fs.pwrite host d buf offset
    .ok (fs, .count n [buf])
  | .writev buffers => do
    let (fs, n) ← fs.writev host d buffers
    .ok (fs, .count n buffers)

end X64Emulator
