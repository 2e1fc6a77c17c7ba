import Mathlib.Data.Prod.Lex
import PicoMq.Library.OrdMap

/-!
# Committed offsets

How far a group has read each partition. The table of a group is kept in memory, and the records of
its log are the changes made to it.
-/

namespace PicoMq.Groups

/-- A topic id, its sixteen bytes read as one big-endian number, and an index. -/
abbrev Partition := ℕ ×ₗ ℕ

namespace Partition

def new (topic index : ℕ) : Partition := toLex (topic, index)

def topic (p : Partition) : ℕ := (ofLex p).1

def index (p : Partition) : ℕ := (ofLex p).2

end Partition

structure CommittedOffset where
  position : ℕ
  leader_epoch : Option ℤ := none
  metadata : Option String := none
deriving DecidableEq, Repr

structure OffsetCommit where
  partition : Partition
  value : CommittedOffset
deriving DecidableEq

abbrev OffsetTable := OrdMap Partition CommittedOffset

/-- One record of a group log. -/
inductive OffsetRecord where
  | delta (commits : List OffsetCommit)
  | snapshot (offsets : OffsetTable)
  | delete (partitions : List Partition)
deriving DecidableEq

def put_commits (offsets : OffsetTable) (commits : List OffsetCommit) : OffsetTable :=
  commits.foldl (fun offsets commit => offsets.insert commit.partition commit.value) offsets

def remove_partitions (offsets : OffsetTable) (partitions : List Partition) : OffsetTable :=
  partitions.foldl (fun offsets partition => offsets.remove partition) offsets

/-- The table without the partitions of deleted topics. -/
def purge (deleted : List ℕ) (offsets : OffsetTable) : OffsetTable :=
  offsets.retain fun partition => ! deleted.contains partition.topic

namespace OffsetRecord

def apply (offsets : OffsetTable) : OffsetRecord → OffsetTable
  | delta commits => put_commits offsets commits
  | snapshot offsets => offsets
  | delete partitions => remove_partitions offsets partitions

end OffsetRecord

/-- The table that the records of a log add up to. -/
def replay (records : List OffsetRecord) : OffsetTable :=
  records.foldl OffsetRecord.apply OrdMap.empty

end PicoMq.Groups
