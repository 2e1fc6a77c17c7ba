import PicoMq.Groups.OffsetCodec
import PicoMq.Groups.Proofs.LogBoundProofs
import PicoMq.Library.Proofs.OrdMapProofs
import PicoMq.Library.Proofs.WireProofs

/-!
# Proofs: the records of a group log in bytes

Reading a record does to the table what the record says.
-/

namespace PicoMq.Groups

open List OrdMap Wire Wire.Reader

variable {offsets : OffsetTable} {record : OffsetRecord} {partition : Partition}
  {value : CommittedOffset} {commits : List OffsetCommit}

/-! ## Fields -/

theorem reads_i32 {x : ℤ} (h : IsSigned 31 x) :
    Reads take_i32 (be_bytes 4 (to_unsigned 31 x)) x := by
  have hword : IsUnsigned (8 * 4) (to_unsigned 31 x) := to_unsigned_lt 31 x
  have hread : Reads take_i32 _ _ := (reads_be_word hword).last
  rwa [to_signed_to_unsigned h] at hread

theorem reads_string {value : String} (h : value.utf8ByteSize ≤ MAX_STRING_BYTES) :
    Reads take_string (put_string value) value := by
  have hword : IsUnsigned (8 * 4) value.utf8ByteSize := lt_of_le_of_lt h (by decide)
  refine (reads_be_word hword).bind ?_
  rw [if_neg (not_lt.2 h), ← append_nil (utf8 value)]
  refine (Reads.take (length_utf8 value)).bind ?_
  rw [of_utf8_utf8]
  exact Reads.pure

theorem reads_metadata {metadata : Option String}
    (h : ∀ value ∈ metadata, value.utf8ByteSize ≤ MAX_STRING_BYTES) :
    Reads take_metadata (put_metadata metadata) metadata := by
  cases metadata with
  | none => exact fun rest => rfl
  | some value =>
    have hbyte : IsUnsigned (8 * 1) 1 := by decide
    exact (reads_be_word hbyte).bind (reads_string (h value rfl)).last

theorem reads_partition (h : partition.Fits) :
    Reads take_partition (put_partition partition) partition :=
  (reads_be_word h.1).bind (reads_be_word h.2).last

theorem reads_entry (hp : partition.Fits) (hv : value.Fits) :
    Reads (take_entry offsets) (put_entry partition value) (offsets.insert partition value) := by
  obtain ⟨hposition, hepoch, hmetadata⟩ := hv
  have hsigned : IsSigned 31 (value.leader_epoch.getD (-1)) := by
    cases he : value.leader_epoch with
    | none => decide
    | some epoch => exact ⟨le_trans (by decide) (hepoch epoch he).1, (hepoch epoch he).2⟩
  have hfilter : (some (value.leader_epoch.getD (-1))).filter (fun epoch => 0 ≤ epoch) =
      value.leader_epoch := by
    cases he : value.leader_epoch with
    | none => rfl
    | some epoch => simp [(hepoch epoch he).1]
  have hread : Reads (take_entry offsets) (put_entry partition value) _ :=
    (reads_partition hp).bind ((reads_be_word hposition).bind
      ((reads_i32 hsigned).bind (reads_metadata hmetadata).last))
  rwa [hfilter] at hread

/-! ## Records -/

theorem reads_put_record {α : Type} {kind : ℕ} {entries : List α} {put : α → Bytes}
    {body : OffsetTable → Take OffsetTable} {next : OffsetTable → α → OffsetTable}
    {start : OffsetTable} (hkind : IsUnsigned (8 * 1) kind)
    (hcount : entries.length ≤ MAX_ENTRIES_PER_RECORD)
    (hloop : take_entries offsets kind entries.length = loop body entries.length start)
    (h : ∀ table, ∀ e ∈ entries, Reads (body table) (put e) (next table e)) :
    Reads (take_record offsets) (put_record kind entries put) (entries.foldl next start) := by
  have hmagic : Reads take_magic MAGIC () := fun rest => rfl
  have hword : IsUnsigned (8 * 4) entries.length := lt_of_le_of_lt hcount (by decide)
  refine hmagic.bind (Reads.bind (reads_be_word hkind) ((reads_be_word hword).bind ?_))
  rw [hloop]
  exact Reads.loop h start

theorem reads_record (h : record.Fits) (offsets : OffsetTable) :
    Reads (take_record offsets) record.encode (record.apply offsets) := by
  cases record with
  | delta commits =>
    have hloop : take_entries offsets KIND_DELTA commits.length =
        loop take_entry commits.length offsets := if_neg (not_lt.2 h.1)
    exact reads_put_record (by decide) h.1 hloop fun table commit hcommit =>
      reads_entry (h.2 commit hcommit).1 (h.2 commit hcommit).2
  | snapshot table =>
    have hloop : take_entries offsets KIND_SNAPSHOT table.entries.length =
        loop take_entry table.entries.length .empty := if_neg (not_lt.2 h.1)
    have hread : Reads (take_record offsets) (encode_snapshot table) (ofList table.entries) :=
      reads_put_record (by decide) h.1 hloop fun table e he =>
        reads_entry (h.2 e he).1 (h.2 e he).2
    rwa [ofList_entries] at hread
  | delete partitions =>
    have hloop : take_entries offsets KIND_DELETE partitions.length =
        loop take_removal partitions.length offsets := if_neg (not_lt.2 h.1)
    exact reads_put_record (by decide) h.1 hloop fun table partition hpartition =>
      (reads_partition (h.2 partition hpartition)).last

/-- A record does to the table what it says, and no record is read from its bytes cut short or with
bytes after them. -/
theorem offset_record_round_trip (h : record.Fits) (offsets : OffsetTable) :
    decode_into record.encode offsets = .ok (record.apply offsets) ∧
      (∀ bytes missing, record.encode = bytes ++ missing → missing ≠ [] →
        ∃ e, decode_into bytes offsets = .error e) ∧
      ∀ more, more ≠ [] → ∃ e, decode_into (record.encode ++ more) offsets = .error e := by
  have hread := reads_record h offsets
  refine ⟨hread.decode, fun bytes missing hbytes hne => ?_, fun more hne => hread.decode_append hne⟩
  rw [hbytes] at hread
  exact hread.decode_left hne

/-- A commit of two partitions, one of them with an epoch and metadata. -/
theorem offset_record_round_trip_of_commit :
    let commits : List OffsetCommit :=
      [⟨.new 1 0, 5, none, none⟩, ⟨.new 2 3, 7, some 4, some "at most once"⟩]
    decode_into (OffsetRecord.delta commits).encode .empty =
      .ok ((empty.insert (.new 1 0) ⟨5, none, none⟩).insert (.new 2 3)
        ⟨7, some 4, some "at most once"⟩) := by
  intro commits
  have hfits : (OffsetRecord.delta commits).Fits := by
    refine ⟨by decide, forall_mem_cons.2 ⟨⟨⟨by decide, by decide⟩, by decide, nofun, nofun⟩,
      forall_mem_cons.2 ⟨⟨⟨by decide, by decide⟩, by decide, ?_, ?_⟩, nofun⟩⟩⟩
    · intro epoch hepoch
      cases hepoch
      decide
    · intro metadata hmetadata
      cases hmetadata
      decide
  exact (offset_record_round_trip hfits _).1

end PicoMq.Groups
