import P9cpu.Core.Wire
import P9cpu.Ninep.Error
import P9cpu.Ninep.Fcall

/-! Encoding and decoding of 9P messages, as two separate families of functions. -/
namespace P9cpu.Ninep
open Core

/-- `String::as_bytes`. -/
def strBytes (s : String) : List UInt8 := s.toByteArray.data.toList

/-- A writer, which takes a whole byte string or fails. -/
class Write (W : Type) where
  writeAll : W → List UInt8 → Except IoError W

/-- `Vec<u8>` and `BytesMut` accept every write. -/
instance : Write (List UInt8) where
  writeAll w bs := .ok (w ++ bs)

/-- Encode a value to a writer and return the number of bytes encoded. -/
class Encodable (α : Type) where
  encode {W : Type} [Write W] : α → W → Except IoError (ℕ × W)

/-- A writer with the number of bytes written through it so far. -/
structure Encoder (W : Type) where
  writer : W
  bytes : ℕ

abbrev SResult (α : Type) := Except IoError α

section Encoding

variable {W : Type} [Write W] {α : Type} [Encodable α]

def Encoder.new (w : W) : Encoder W := ⟨w, 0⟩

def Encoder.encode (enc : Encoder W) (data : α) : Except IoError (ℕ × Encoder W) := do
  let (bytes, writer) ← Encodable.encode data enc.writer
  return (bytes, ⟨writer, enc.bytes + bytes⟩)

instance : HShiftLeft (Encoder W) α (SResult (Encoder W)) where
  hShiftLeft enc rhs :=
    match enc.encode rhs with
    | .ok (_, enc) => .ok enc
    | .error e => .error e

instance : HShiftLeft (SResult (Encoder W)) α (SResult (Encoder W)) where
  hShiftLeft r rhs :=
    match r with
    | .ok enc => enc <<< rhs
    | .error e => .error e

/-- What every `encode` of a record does with its last encoder. -/
def SResult.finish (r : SResult (Encoder W)) : Except IoError (ℕ × W) :=
  match r with
  | .ok enc => .ok (enc.bytes, enc.writer)
  | .error e => .error e

def writeUInt (w : W) (size val : ℕ) : Except IoError (ℕ × W) := do
  let w ← Write.writeAll w (leBytes size val)
  return (size, w)

instance : Encodable UInt8 where
  encode x w := writeUInt w 1 x.toNat

instance : Encodable UInt16 where
  encode x w := writeUInt w 2 x.toNat

instance : Encodable UInt32 where
  encode x w := writeUInt w 4 x.toNat

instance : Encodable UInt64 where
  encode x w := writeUInt w 8 x.toNat

/-- The length is cut to 16 bits, the contents are not. -/
instance : Encodable String where
  encode s w := do
    let (bytes, w) ← Encodable.encode (UInt16.ofNat s.utf8ByteSize) w
    let w ← Write.writeAll w (strBytes s)
    return (bytes + s.utf8ByteSize, w)

instance : Encodable Qid where
  encode q w := (Encoder.new w <<< q.typ.bits <<< q.version <<< q.path).finish

instance : Encodable Statfs where
  encode s w := (Encoder.new w <<< s.typ <<< s.bsize <<< s.blocks <<< s.bfree <<< s.bavail
    <<< s.files <<< s.ffree <<< s.fsid <<< s.namelen).finish

instance : Encodable Time where
  encode t w := (Encoder.new w <<< t.sec <<< t.nsec).finish

instance : Encodable Stat where
  encode s w := (Encoder.new w <<< s.mode <<< s.uid <<< s.gid <<< s.nlink <<< s.rdev
    <<< s.size <<< s.blksize <<< s.blocks <<< s.atime <<< s.mtime <<< s.ctime).finish

instance : Encodable SetAttr where
  encode s w := (Encoder.new w <<< s.mode <<< s.uid <<< s.gid <<< s.size <<< s.atime
    <<< s.mtime).finish

instance : Encodable DirEntry where
  encode e w := (Encoder.new w <<< e.qid <<< e.offset <<< e.typ <<< e.name).finish

/-- The entries are preceded by their size in bytes, not by their number. -/
instance : Encodable DirEntryData where
  encode d w := (d.data.foldl (fun acc e => acc <<< e) (Encoder.new w <<< d.size)).finish

instance : Encodable Data where
  encode d w := do
    let size := d.bytes.length
    let (bytes, w) ← Encodable.encode (UInt32.ofNat size) w
    let w ← Write.writeAll w d.bytes
    return (bytes + size, w)

instance : Encodable Flock where
  encode l w := (Encoder.new w <<< l.typ.bits <<< l.flags.bits <<< l.start <<< l.length
    <<< l.procId <<< l.clientId).finish

instance : Encodable Getlock where
  encode l w := (Encoder.new w <<< l.typ.bits <<< l.start <<< l.length <<< l.procId
    <<< l.clientId).finish

instance : Encodable (List α) where
  encode v w :=
    (v.foldl (fun acc s => acc <<< s) (Encoder.new w <<< UInt16.ofNat v.length)).finish

end Encoding

/-- The fields of a message body, written after the type and the tag. -/
def Fcall.encodeFields {W : Type} [Write W] (buf : SResult (Encoder W)) :
    Fcall → SResult (Encoder W)
  | .rlerror ecode => buf <<< ecode
  | .tstatfs fid => buf <<< fid
  | .rstatfs statfs => buf <<< statfs
  | .tlopen fid flags => buf <<< fid <<< flags
  | .rlopen qid iounit => buf <<< qid <<< iounit
  | .tlcreate fid name flags mode gid => buf <<< fid <<< name <<< flags <<< mode <<< gid
  | .rlcreate qid iounit => buf <<< qid <<< iounit
  | .tsymlink fid name symtgt gid => buf <<< fid <<< name <<< symtgt <<< gid
  | .rsymlink qid => buf <<< qid
  | .tmknod dfid name mode major minor gid =>
    buf <<< dfid <<< name <<< mode <<< major <<< minor <<< gid
  | .rmknod qid => buf <<< qid
  | .trename fid dfid name => buf <<< fid <<< dfid <<< name
  | .rrename => buf
  | .treadlink fid => buf <<< fid
  | .rreadlink target => buf <<< target
  | .tgetattr fid reqMask => buf <<< fid <<< reqMask.bits
  | .rgetattr valid qid stat =>
    buf <<< valid.bits <<< qid <<< stat <<< (0 : UInt64) <<< (0 : UInt64) <<< (0 : UInt64)
      <<< (0 : UInt64)
  | .tsetattr fid valid stat => buf <<< fid <<< valid.bits <<< stat
  | .rsetattr => buf
  | .txattrwalk fid newfid name => buf <<< fid <<< newfid <<< name
  | .rxattrwalk size => buf <<< size
  | .txattrcreate fid name attrSize flags => buf <<< fid <<< name <<< attrSize <<< flags
  | .rxattrcreate => buf
  | .treaddir fid offset count => buf <<< fid <<< offset <<< count
  | .rreaddir data => buf <<< data
  | .tfsync fid => buf <<< fid
  | .rfsync => buf
  | .tlock fid flock => buf <<< fid <<< flock
  | .rlock status => buf <<< status.bits
  | .tgetlock fid flock => buf <<< fid <<< flock
  | .rgetlock flock => buf <<< flock
  | .tlink dfid fid name => buf <<< dfid <<< fid <<< name
  | .rlink => buf
  | .tmkdir dfid name mode gid => buf <<< dfid <<< name <<< mode <<< gid
  | .rmkdir qid => buf <<< qid
  | .trenameat olddirfid oldname newdirfid newname =>
    buf <<< olddirfid <<< oldname <<< newdirfid <<< newname
  | .rrenameat => buf
  | .tunlinkat dirfd name flags => buf <<< dirfd <<< name <<< flags
  | .runlinkat => buf
  | .tauth afid uname aname nUname => buf <<< afid <<< uname <<< aname <<< nUname
  | .rauth aqid => buf <<< aqid
  | .tattach fid afid uname aname nUname =>
    buf <<< fid <<< afid <<< uname <<< aname <<< nUname
  | .rattach qid => buf <<< qid
  | .tversion msize version => buf <<< msize <<< version
  | .rversion msize version => buf <<< msize <<< version
  | .tflush oldtag => buf <<< oldtag
  | .rflush => buf
  | .twalk fid newfid wnames => buf <<< fid <<< newfid <<< wnames
  | .rwalk wqids => buf <<< wqids
  | .tread fid offset count => buf <<< fid <<< offset <<< count
  | .rread data => buf <<< data
  | .twrite fid offset data => buf <<< fid <<< offset <<< data
  | .rwrite count => buf <<< count
  | .tclunk fid => buf <<< fid
  | .rclunk => buf
  | .tremove fid => buf <<< fid
  | .rremove => buf

instance : Encodable Msg where
  encode m w :=
    (m.body.encodeFields (Encoder.new w <<< m.body.msgType.toU8 <<< m.tag)).finish

def writeMsg {W : Type} [Write W] (w : W) (msg : Msg) : Except IoError (ℕ × W) :=
  Encodable.encode msg w

/-! Decoding. -/

/-- What `Read::read_exact` fails with at the end of the input. -/
def unexpectedEof : IoError := .custom .unexpectedEof "failed to fill whole buffer"

class Decodable (α : Type) where
  decode : Reader IoError α

export Decodable (decode)

def readUInt (size : ℕ) : Reader IoError ℕ := leVal <$> readExact unexpectedEof size

instance : Decodable UInt8 := ⟨UInt8.ofNat <$> readUInt 1⟩
instance : Decodable UInt16 := ⟨UInt16.ofNat <$> readUInt 2⟩
instance : Decodable UInt32 := ⟨UInt32.ofNat <$> readUInt 4⟩
instance : Decodable UInt64 := ⟨UInt64.ofNat <$> readUInt 8⟩

/-- `String::from_utf8`. -/
def fromUtf8 (bytes : List UInt8) : Reader IoError String :=
  match String.fromUTF8? ⟨bytes.toArray⟩ with
  | some s => pure s
  | none => throw (.custom .other "Invalid UTF-8 sequence")

instance : Decodable String where
  decode := do
    let len : UInt16 ← decode
    fromUtf8 (← readExact unexpectedEof len.toNat)

def Qid.decode : Reader IoError Qid := return {
  typ := .fromBitsTruncate (← Decodable.decode)
  version := ← Decodable.decode
  path := ← Decodable.decode }

instance : Decodable Qid := ⟨Qid.decode⟩

def Statfs.decode : Reader IoError Statfs := return {
  typ := ← Decodable.decode
  bsize := ← Decodable.decode
  blocks := ← Decodable.decode
  bfree := ← Decodable.decode
  bavail := ← Decodable.decode
  files := ← Decodable.decode
  ffree := ← Decodable.decode
  fsid := ← Decodable.decode
  namelen := ← Decodable.decode }

instance : Decodable Statfs := ⟨Statfs.decode⟩

def Time.decode : Reader IoError Time := return {
  sec := ← Decodable.decode
  nsec := ← Decodable.decode }

instance : Decodable Time := ⟨Time.decode⟩

def Stat.decode : Reader IoError Stat := return {
  mode := ← Decodable.decode
  uid := ← Decodable.decode
  gid := ← Decodable.decode
  nlink := ← Decodable.decode
  rdev := ← Decodable.decode
  size := ← Decodable.decode
  blksize := ← Decodable.decode
  blocks := ← Decodable.decode
  atime := ← Decodable.decode
  mtime := ← Decodable.decode
  ctime := ← Decodable.decode }

instance : Decodable Stat := ⟨Stat.decode⟩

def SetAttr.decode : Reader IoError SetAttr := return {
  mode := ← Decodable.decode
  uid := ← Decodable.decode
  gid := ← Decodable.decode
  size := ← Decodable.decode
  atime := ← Decodable.decode
  mtime := ← Decodable.decode }

instance : Decodable SetAttr := ⟨SetAttr.decode⟩

def DirEntry.decode : Reader IoError DirEntry := return {
  qid := ← Decodable.decode
  offset := ← Decodable.decode
  typ := ← Decodable.decode
  name := ← Decodable.decode }

instance : Decodable DirEntry := ⟨DirEntry.decode⟩

/-- The leading field is taken for the number of entries. -/
instance : Decodable DirEntryData where
  decode := do
    let count : UInt32 ← decode
    DirEntryData.mk <$> readMany decode count.toNat

instance : Decodable Data where
  decode := do
    let len : UInt32 ← decode
    Data.mk <$> readExact unexpectedEof len.toNat

def Flock.decode : Reader IoError Flock := return {
  typ := .fromBitsTruncate (← Decodable.decode)
  flags := .fromBitsTruncate (← Decodable.decode)
  start := ← Decodable.decode
  length := ← Decodable.decode
  procId := ← Decodable.decode
  clientId := ← Decodable.decode }

instance : Decodable Flock := ⟨Flock.decode⟩

def Getlock.decode : Reader IoError Getlock := return {
  typ := .fromBitsTruncate (← Decodable.decode)
  start := ← Decodable.decode
  length := ← Decodable.decode
  procId := ← Decodable.decode
  clientId := ← Decodable.decode }

instance : Decodable Getlock := ⟨Getlock.decode⟩

instance {α : Type} [Decodable α] : Decodable (List α) where
  decode := do
    let len : UInt16 ← decode
    readMany decode len.toNat

/-- The fields of a message body, read after the type and the tag. -/
def Fcall.decodeFields : Option MsgType → Reader IoError Fcall
  | some .rlerror => return .rlerror (← decode)
  | some .tstatfs => return .tstatfs (← decode)
  | some .rstatfs => return .rstatfs (← decode)
  | some .tlopen => return .tlopen (← decode) (← decode)
  | some .rlopen => return .rlopen (← decode) (← decode)
  | some .tlcreate =>
    return .tlcreate (← decode) (← decode) (← decode) (← decode) (← decode)
  | some .rlcreate => return .rlcreate (← decode) (← decode)
  | some .tsymlink => return .tsymlink (← decode) (← decode) (← decode) (← decode)
  | some .rsymlink => return .rsymlink (← decode)
  | some .tmknod =>
    return .tmknod (← decode) (← decode) (← decode) (← decode) (← decode) (← decode)
  | some .rmknod => return .rmknod (← decode)
  | some .trename => return .trename (← decode) (← decode) (← decode)
  | some .rrename => return .rrename
  | some .treadlink => return .treadlink (← decode)
  | some .rreadlink => return .rreadlink (← decode)
  | some .tgetattr => return .tgetattr (← decode) (.fromBitsTruncate (← decode))
  | some .rgetattr => do
    let r := .rgetattr (.fromBitsTruncate (← decode)) (← decode) (← decode)
    let _btime : Time ← decode
    let _gen : UInt64 ← decode
    let _ver : UInt64 ← decode
    return r
  | some .tsetattr => return .tsetattr (← decode) (.fromBitsTruncate (← decode)) (← decode)
  | some .rsetattr => return .rsetattr
  | some .txattrwalk => return .txattrwalk (← decode) (← decode) (← decode)
  | some .rxattrwalk => return .rxattrwalk (← decode)
  | some .txattrcreate => return .txattrcreate (← decode) (← decode) (← decode) (← decode)
  | some .rxattrcreate => return .rxattrcreate
  | some .treaddir => return .treaddir (← decode) (← decode) (← decode)
  | some .rreaddir => return .rreaddir (← decode)
  | some .tfsync => return .tfsync (← decode)
  | some .rfsync => return .rfsync
  | some .tlock => return .tlock (← decode) (← decode)
  | some .rlock => return .rlock (.fromBitsTruncate (← decode))
  | some .tgetlock => return .tgetlock (← decode) (← decode)
  | some .rgetlock => return .rgetlock (← decode)
  | some .tlink => return .tlink (← decode) (← decode) (← decode)
  | some .rlink => return .rlink
  | some .tmkdir => return .tmkdir (← decode) (← decode) (← decode) (← decode)
  | some .rmkdir => return .rmkdir (← decode)
  | some .trenameat => return .trenameat (← decode) (← decode) (← decode) (← decode)
  | some .rrenameat => return .rrenameat
  | some .tunlinkat => return .tunlinkat (← decode) (← decode) (← decode)
  | some .runlinkat => return .runlinkat
  | some .tauth => return .tauth (← decode) (← decode) (← decode) (← decode)
  | some .rauth => return .rauth (← decode)
  | some .tattach =>
    return .tattach (← decode) (← decode) (← decode) (← decode) (← decode)
  | some .rattach => return .rattach (← decode)
  | some .tversion => return .tversion (← decode) (← decode)
  | some .rversion => return .rversion (← decode) (← decode)
  | some .tflush => return .tflush (← decode)
  | some .rflush => return .rflush
  | some .twalk => return .twalk (← decode) (← decode) (← decode)
  | some .rwalk => return .rwalk (← decode)
  | some .tread => return .tread (← decode) (← decode) (← decode)
  | some .rread => return .rread (← decode)
  | some .twrite => return .twrite (← decode) (← decode) (← decode)
  | some .rwrite => return .rwrite (← decode)
  | some .tclunk => return .tclunk (← decode)
  | some .rclunk => return .rclunk
  | some .tremove => return .tremove (← decode)
  | some .rremove => return .rremove
  | some .tlerror | none => throw (.custom .other "Invalid message type")

def Msg.decode : Reader IoError Msg := do
  let msgType := MsgType.fromU8 (← Decodable.decode)
  let tag ← Decodable.decode
  let body ← Fcall.decodeFields msgType
  return { tag, body }

instance : Decodable Msg := ⟨Msg.decode⟩

def readMsg : Reader IoError Msg := decode

end P9cpu.Ninep
