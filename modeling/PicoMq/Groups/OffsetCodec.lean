import PicoMq.Groups.LogBound
import PicoMq.Library.Wire

/-!
# The records of a group log in bytes

A record is written without any check and read back within limits. Integers are big-endian.
-/

namespace PicoMq.Groups

open Wire

def MAGIC : Bytes := [80, 71, 83, 51]

def KIND_DELTA : ℕ := 0

def KIND_SNAPSHOT : ℕ := 1

def KIND_DELETE : ℕ := 2

def MAX_ENTRIES_PER_RECORD : ℕ := 2 ^ 20

def MAX_STRING_BYTES : ℕ := 1024 * 1024

/-! ## Writing -/

def put_string (value : String) : Bytes := be_bytes 4 value.utf8ByteSize ++ utf8 value

def put_metadata : Option String → Bytes
  | some metadata => be_bytes 1 1 ++ put_string metadata
  | none => be_bytes 1 0

def put_partition (partition : Partition) : Bytes :=
  be_bytes 16 partition.topic ++ be_bytes 4 partition.index

def put_entry (partition : Partition) (value : CommittedOffset) : Bytes :=
  put_partition partition ++ (be_bytes 8 value.position ++
    (be_bytes 4 (to_unsigned 31 (value.leader_epoch.getD (-1))) ++ put_metadata value.metadata))

/-- The count is cast to a `u32`. -/
def put_record {α : Type} (kind : ℕ) (entries : List α) (put : α → Bytes) : Bytes :=
  MAGIC ++ (be_bytes 1 kind ++ (be_bytes 4 entries.length ++ entries.flatMap put))

def encode_commits (commits : List OffsetCommit) : Bytes :=
  put_record KIND_DELTA commits fun commit => put_entry commit.partition commit.value

variable (offsets : OffsetTable)

def encode_snapshot : Bytes :=
  put_record KIND_SNAPSHOT offsets.entries fun e => put_entry e.1 e.2

def encode_deletes (partitions : List Partition) : Bytes :=
  put_record KIND_DELETE partitions put_partition

def OffsetRecord.encode : OffsetRecord → Bytes
  | .delta commits => encode_commits commits
  | .snapshot offsets => encode_snapshot offsets
  | .delete partitions => encode_deletes partitions

/-! ## Reading -/

abbrev Take := Reader Unit

def take_u8 : Take ℕ := Reader.be_word 1 ()

def take_u32 : Take ℕ := Reader.be_word 4 ()

def take_u64 : Take ℕ := Reader.be_word 8 ()

def take_i32 : Take ℤ := do
  let n ← Reader.be_word 4 ()
  pure (to_signed 31 n)

def take_id : Take ℕ := Reader.be_word 16 ()

def take_string : Take String := do
  let len ← take_u32
  if len > MAX_STRING_BYTES then Reader.fail ()
  else do
    let bytes ← Reader.take len ()
    match of_utf8 bytes with
    | some value => pure value
    | none => Reader.fail ()

def take_metadata : Take (Option String) := do
  let has_metadata ← take_u8
  match has_metadata with
  | 0 => pure none
  | 1 => do
    let metadata ← take_string
    pure (some metadata)
  | _ => Reader.fail ()

def take_partition : Take Partition := do
  let topic ← take_id
  let index ← take_u32
  pure (Partition.new topic index)

def take_removal : Take OffsetTable := do
  let partition ← take_partition
  pure (offsets.remove partition)

def take_entry : Take OffsetTable := do
  let partition ← take_partition
  let position ← take_u64
  let leader_epoch ← take_i32
  let metadata ← take_metadata
  pure (offsets.insert partition
    { position, leader_epoch := (some leader_epoch).filter fun epoch => 0 ≤ epoch, metadata })

def take_magic : Take Unit := do
  let magic ← Reader.take 4 ()
  if magic ≠ MAGIC then Reader.fail () else pure ()

def take_entries (kind count : ℕ) : Take OffsetTable :=
  if count > MAX_ENTRIES_PER_RECORD then Reader.fail ()
  else
    match kind with
    | 0 => Reader.loop take_entry count offsets
    | 1 => Reader.loop take_entry count .empty
    | 2 => Reader.loop take_removal count offsets
    | _ => Reader.fail ()

def take_record : Take OffsetTable := do
  take_magic
  let kind ← take_u8
  let count ← take_u32
  take_entries offsets kind count

def decode_into (payload : Bytes) (offsets : OffsetTable) : Except Unit OffsetTable :=
  (take_record offsets).decode (fun _ => ()) payload

/-! ## What is read back -/

def Partition.Fits (partition : Partition) : Prop :=
  IsUnsigned 128 partition.topic ∧ IsUnsigned 32 partition.index

def CommittedOffset.Fits (value : CommittedOffset) : Prop :=
  IsUnsigned 64 value.position ∧ (∀ epoch ∈ value.leader_epoch, 0 ≤ epoch ∧ epoch < 2 ^ 31) ∧
    ∀ metadata ∈ value.metadata, metadata.utf8ByteSize ≤ MAX_STRING_BYTES

/-- There are no more entries than the reader takes, and each of them is of the format. -/
def OffsetRecord.Fits : OffsetRecord → Prop
  | .delta commits => commits.length ≤ MAX_ENTRIES_PER_RECORD ∧
      ∀ commit ∈ commits, commit.partition.Fits ∧ commit.value.Fits
  | .snapshot offsets => offsets.len ≤ MAX_ENTRIES_PER_RECORD ∧
      ∀ e ∈ offsets.entries, Partition.Fits e.1 ∧ e.2.Fits
  | .delete partitions => partitions.length ≤ MAX_ENTRIES_PER_RECORD ∧
      ∀ partition ∈ partitions, partition.Fits

end PicoMq.Groups
