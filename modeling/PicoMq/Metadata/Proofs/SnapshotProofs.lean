import PicoMq.Metadata.Proofs.CodecProofs
import PicoMq.Metadata.Proofs.NodeProofs
import PicoMq.Metadata.Proofs.RestoreProofs
import PicoMq.Metadata.Snapshot

/-!
# Proofs: snapshots

Log entries are decoded before their commands are applied, so nothing in a reachable state is too
long for the count in front of it.
-/

namespace PicoMq.Metadata

open Wire Wire.Reader Fields MetadataState OrdMap

variable {s s' : MetadataState} {r : MetadataResult} {noop : ℕ}

/-! ## Short rows

What the format asks of the rows besides their numbers. -/

def NodeRow.Short (node : NodeRow) : Prop :=
  StrFits node.http_address ∧ StrMapFits node.protocol_addresses ∧ StrFits node.wal

/-- A stream-set object has a size for every range, and its ranges can be counted. -/
def StreamSetObjectRow.Short (row : StreamSetObjectRow) : Prop :=
  row.range_sizes.length = row.object.offset_ranges.length ∧
    IsUnsigned 32 row.object.offset_ranges.length

structure MetadataState.Short (s : MetadataState) : Prop where
  nodes : ∀ id node, s.nodes.get id = some node → node.Short
  set_objects : ∀ id row, s.stream_set_objects.get id = some row → row.Short
  stream_objects : ∀ key row, s.stream_objects.get key = some row →
    row.object.offset_ranges.length = 1
  kv : ∀ key value, s.kv.get key = some value → StrFits key ∧ BlobFits value

namespace MetadataState.Short

theorem empty : Short {} := ⟨nofun, nofun, nofun, nofun⟩

section

variable (h : s.Short)
include h

theorem frame (hnodes : s'.nodes = s.nodes) (hset : s'.stream_set_objects = s.stream_set_objects)
    (hobjects : s'.stream_objects = s.stream_objects) (hkv : s'.kv = s.kv) : s'.Short where
  nodes := hnodes ▸ h.nodes
  set_objects := hset ▸ h.set_objects
  stream_objects := hobjects ▸ h.stream_objects
  kv := hkv ▸ h.kv

theorem set_node {node_id : ℤ} {node : NodeRow} (hnode : node.Short) :
    Short { s with nodes := s.nodes.insert node_id node } :=
  { h with
    nodes := fun id row hrow => by
      rcases get_insert_cases hrow with ⟨-, rfl⟩ | ⟨-, hrow⟩
      · exact hnode
      · exact h.nodes id row hrow }

/-- Only the rows of the objects are new. -/
theorem set_rows (hcluster : s'.toClusterTables = s.toClusterTables)
    (hkv : s'.toKvTables = s.toKvTables)
    (hset : ∀ id row, s'.stream_set_objects.get id = some row → row.Short)
    (hobjects : ∀ key row, s'.stream_objects.get key = some row →
      row.object.offset_ranges.length = 1) : s'.Short where
  nodes := by
    rw [hcluster]
    exact h.nodes
  set_objects := hset
  stream_objects := hobjects
  kv := by
    rw [hkv]
    exact h.kv

theorem remove_stream_set_object (id : ℕ) : (s.remove_stream_set_object id).Short := by
  obtain ⟨hcluster, -, -, hkv, hobjects, -⟩ := remove_stream_set_object_frame (s := s) id
  refine h.set_rows hcluster hkv (fun id' row hrow => ?_) (hobjects ▸ h.stream_objects)
  rw [remove_stream_set_object_objects] at hrow
  exact h.set_objects id' row (of_get_remove hrow).2

theorem put_stream_set_object {row : StreamSetObjectRow} (hrow : row.Short) :
    (s.put_stream_set_object row).Short := by
  obtain ⟨hcluster, -, -, hkv, hobjects, -⟩ := put_stream_set_object_frame (s := s) row
  refine h.set_rows hcluster hkv (fun id row' hrow' => ?_) (hobjects ▸ h.stream_objects)
  rw [put_stream_set_object_objects] at hrow'
  rcases get_insert_cases hrow' with ⟨-, rfl⟩ | ⟨-, hrow'⟩
  · exact hrow
  · exact h.set_objects id row' hrow'

theorem remove_stream_object (id : ℕ) : (s.remove_stream_object id).Short := by
  obtain ⟨hcluster, -, -, hkv, hobjects, -⟩ := remove_stream_object_frame (s := s) id
  refine h.set_rows hcluster hkv (hobjects ▸ h.set_objects) fun key row hrow => ?_
  rw [get_remove_stream_object] at hrow
  split_ifs at hrow
  exact h.stream_objects key row hrow

theorem put_stream_object {row : StreamObjectRow}
    (hrow : row.object.offset_ranges.length = 1) : (s.put_stream_object row).Short := by
  obtain ⟨hcluster, -, -, hkv, hobjects, -⟩ := put_stream_object_frame (s := s) row
  refine h.set_rows hcluster hkv (hobjects ▸ h.set_objects) fun key row' hrow' => ?_
  rw [get_put_stream_object] at hrow'
  split_ifs at hrow'
  · cases hrow'; exact hrow
  · exact h.stream_objects key row' hrow'

theorem put_kv {key : String} {value : Bytes} (hkey : StrFits key)
    (hvalue : BlobFits value) : (s.put_kv key value).Short := by
  have hput : ∀ key' value', (s.kv.insert key value).get key' = some value' →
      StrFits key' ∧ BlobFits value' := by
    intro key' value' hkv
    rcases get_insert_cases hkv with ⟨rfl, rfl⟩ | ⟨-, hkv⟩
    · exact ⟨hkey, hvalue⟩
    · exact h.kv key' value' hkv
  unfold MetadataState.put_kv
  cases s.kv.get key with
  | none => exact ⟨h.nodes, h.set_objects, h.stream_objects, hput⟩
  | some old => exact ⟨h.nodes, h.set_objects, h.stream_objects, hput⟩

theorem remove_kv (key : String) : (s.remove_kv key).1.Short := by
  unfold MetadataState.remove_kv
  cases s.kv.get key with
  | none => exact h
  | some old =>
    refine ⟨h.nodes, h.set_objects, h.stream_objects, fun key' value hkv => ?_⟩
    exact h.kv key' value (of_get_remove hkv).2

end

end MetadataState.Short

/-! ## Commands keep the rows short -/

section

variable (h : s.Short)
include h

theorem mark_destroyed_short (id : ℕ) (op : CompactOperations) :
    (mark_destroyed s id op).Short := by
  unfold mark_destroyed
  cases s.destroyed_by_id.get id with
  | some seq => exact h.frame rfl rfl rfl rfl
  | none => exact h.frame rfl rfl rfl rfl

theorem Writes.short {C : ℕ → Prop}
    (hwrites : Writes C StreamSetObjectRow.Short s s') : s'.Short := by
  induction hwrites with
  | refl => exact h
  | tail _ hlast ih =>
    cases hlast with
    | unlease => exact ih.frame rfl rfl rfl rfl
    | advance => exact ih.frame rfl rfl rfl rfl
    | list_set row hrow => exact ih.put_stream_set_object hrow
    | list => exact ih.put_stream_object rfl
    | drop_set id => exact ih.remove_stream_set_object id
    | drop id => exact ih.remove_stream_object id
    | mark id op => exact mark_destroyed_short ih id op

theorem destroy_stream_objects_short (keys : List StreamOffsetKey) :
    (keys.foldl destroy_stream_object s).Short :=
  (Writes.foldl (C := Any) destroy_stream_object_writes keys s).short h

theorem commit_stream_set_object_short {n : ℤ}
    {request : CommitStreamSetObjectRequest} {now_ms : ℤ} (hrequest : request.Fits)
    (hok : commit_stream_set_object noop s n request now_ms = .ok (s', r)) :
    s'.Short := by
  refine (commit_stream_set_object_writes (C := Any) (fun _ => trivial) (fun _ _ => trivial)
    (fun _ _ => ⟨?_, ?_⟩) hok).short h
  · simp [stream_set_object_row]
  · obtain ⟨-, -, -, hranges, -⟩ := hrequest
    show IsUnsigned 32 (request.stream_ranges.map _).length
    rw [List.length_map]
    exact hranges.1

theorem create_streams_short (count : ℕ) : (create_next^[count] s).Short := by
  induction count with
  | zero => exact h
  | succ count ih =>
    rw [Function.iterate_succ_apply']
    exact ih.frame rfl rfl rfl rfl

theorem register_node_short {node_id node_epoch : ℤ} {http_address wal : String}
    {slots : ℕ} {protocol_addresses : OrdMap String String}
    (haddress : StrFits http_address) (haddresses : StrMapFits protocol_addresses)
    (hwal : StrFits wal)
    (hok : register_node s node_id node_epoch http_address slots protocol_addresses wal =
      .ok (s', r)) : s'.Short := by
  cases hok
  refine h.set_node ?_
  cases hnode : s.nodes.get node_id with
  | none => exact ⟨haddress, haddresses, hwal⟩
  | some node =>
    obtain ⟨h1, h2, h3⟩ := h.nodes node_id node hnode
    refine ⟨?_, ?_, ?_⟩
    · show StrFits (if http_address.isEmpty then node.http_address else http_address)
      split_ifs
      · exact h1
      · exact haddress
    · show StrMapFits (if protocol_addresses.entries.isEmpty then node.protocol_addresses
        else protocol_addresses)
      split_ifs
      · exact h2
      · exact haddresses
    · show StrFits (if wal.isEmpty then node.wal else wal)
      split_ifs
      · exact h3
      · exact hwal

end

theorem MetadataCommand.kv_entry_fits {c : MetadataCommand} (hc : c.FieldsFit) {key : String}
    {value : Bytes} (h : c.kv_entry = some (key, value)) : StrFits key ∧ BlobFits value := by
  cases c with
  | putKv => cases h; exact hc
  | putKvIfAbsent => cases h; exact hc
  | putKvIfMatches => cases h; exact ⟨hc.1, hc.2.2⟩
  | _ => cases h

theorem Effect.short {c : MetadataCommand} (heffect : Effect noop s c s')
    (hc : c.FieldsFit) (h : s.Short) : s'.Short := by
  cases heffect with
  | same => exact h
  | registered _ _ _ _ _ _ _ _ _ _ _ _ hok =>
    obtain ⟨-, -, haddress, -, haddresses, hwal⟩ := hc
    exact register_node_short h haddress haddresses hwal hok
  | nodeKept c node_id old slots heartbeats hold => exact h.set_node (h.nodes _ old hold)
  | nodeFenced p node_id heartbeats old hold => exact h.set_node (h.nodes _ old hold)
  | created c count => exact create_streams_short h count
  | trimmed =>
    refine destroy_stream_objects_short ?_ _
    exact h.frame rfl rfl rfl rfl
  | deleted =>
    refine destroy_stream_objects_short ?_ _
    exact h.frame rfl rfl rfl rfl
  | committed p request now_ms s' hok => exact commit_stream_set_object_short h hc.2 hok
  | compacted p request now_ms s' hok =>
    exact (compact_stream_object_writes (C := Any) trivial hok).short h
  | cleaned => exact List.foldl_invariant (fun _ _ _ h => h.frame rfl rfl rfl rfl) h
  | kv c kv underflowed hkv =>
    obtain ⟨key, value, hentry, hput⟩ | ⟨key, hremove⟩ := hkv
    · obtain ⟨hkey, hvalue⟩ := MetadataCommand.kv_entry_fits hc hentry
      exact hput ▸ h.put_kv hkey hvalue
    · exact hremove ▸ h.remove_kv key
  | _ => exact h.frame rfl rfl rfl rfl

theorem history_short {log : List MetadataCommand} (hlog : ∀ c ∈ log, c.Fits) (i : ℕ) :
    (history noop log i).Short := by
  refine Run.after_of_le (Nat.zero_le i) Short.empty fun k c _ _ hc hshort => ?_
  have hfits := hlog c (List.mem_of_getElem? hc)
  exact step_of_dispatch hshort fun _ _ _ hok => (dispatch_effect hok).short hfits.2 hshort

section

variable (h : Reached noop s)
include h

theorem Reached.short : s.Short := by
  obtain ⟨entries, batches, i, hdecoded, rfl⟩ := h
  refine history_short (fun c hc => ?_) i
  obtain ⟨batch, hbatch, hmem⟩ := List.mem_flatten.1 hc
  obtain ⟨bytes, -, hbytes⟩ := List.exists_of_mapM_ok hdecoded hbatch
  exact (Codec.fits_of_decode_batch hbytes).2 c hmem

theorem Reached.wf : s.Wf := by
  obtain ⟨entries, batches, i, -, rfl⟩ := h
  exact history_wf _ i

theorem Reached.node_keyed {id : ℤ} {node : NodeRow}
    (hnode : s.nodes.get id = some node) : node.node_id = id := by
  obtain ⟨entries, batches, i, -, rfl⟩ := h
  exact history_nodes_keyed hnode

end

/-! ## Reading the tables back -/

namespace Snapshot

theorem reads_check_version : Reads check_version (put_u8 SNAPSHOT_VERSION) () := fun _ => rfl

theorem reads_object_type (object_type : S3ObjectType) :
    Reads get_object_type (put_object_type object_type) object_type := by
  cases object_type with
  | streamSet => exact fun rest => rfl
  | stream => exact fun rest => rfl

theorem reads_offset_range {range : StreamOffsetRange} (h : range.InRange) :
    Reads get_offset_range (put_offset_range range) range :=
  (reads_u64 h.1).bind ((reads_u64 h.2.1).bind (reads_u64 h.2.2).last)

theorem reads_object {object : S3ObjectMetadata} (h : object.InRange)
    (hcount : IsUnsigned 32 object.offset_ranges.length) :
    Reads get_object (put_object object) object := by
  obtain ⟨hid, hsize, hattributes, hcommitted, hdata, hranges⟩ := h
  exact (reads_u64 hid).bind ((reads_object_type _).bind ((reads_u64 hsize).bind
    ((reads_u32 hattributes).bind ((reads_i64 hcommitted).bind ((reads_i64 hdata).bind
      (reads_list ⟨hcount, hranges⟩ fun _ => reads_offset_range).last)))))

theorem reads_fenced (fenced : Bool) : Reads get_fenced (put_fenced fenced) fenced := by
  cases fenced with
  | false => exact fun rest => rfl
  | true => exact fun rest => rfl

theorem reads_table {K V : Type} [LinearOrder K] {get_entry : MetadataState → Get MetadataState}
    {put : K × V → Bytes} {next : MetadataState → K × V → MetadataState} {table : OrdMap K V}
    (hlength : IsUnsigned 64 table.entries.length)
    (h : ∀ t, ∀ e ∈ table.entries, Reads (get_entry t) (put e) (next t e)) (t : MetadataState) :
    Reads (get_table get_entry t) (put_table put table) (table.entries.foldl next t) :=
  (reads_u64 hlength).bind (Reads.loop h t)

section

variable (h : s.InRange) (t : MetadataState)
include h

theorem reads_streams :
    Reads (get_table get_stream t) (put_table put_stream s.streams) (put_streams t s.streams) := by
  refine reads_table h.streams.1 (fun t e he => ?_) t
  obtain ⟨hid, hepoch, hstart, hend, hnode⟩ := h.streams.2 e he
  exact (reads_u64 hid).bind ((reads_i64 hepoch).bind ((reads_u64 hstart).bind
    ((reads_u64 hend).bind ((reads_stream_state _).bind (reads_i32 hnode).last))))

theorem reads_nodes (hshort : s.Short) :
    Reads (get_table get_node t) (put_table put_node s.nodes) (put_nodes t s.nodes) := by
  refine reads_table h.nodes.1 (fun t e he => ?_) t
  obtain ⟨hid, hepoch, hslots, hbeats⟩ := h.nodes.2 e he
  obtain ⟨haddress, haddresses, hwal⟩ := hshort.nodes e.1 e.2 (mem_entries.1 he)
  exact (reads_i32 hid).bind ((reads_i64 hepoch).bind ((reads_str haddress).bind
    ((reads_u32 hslots).bind ((reads_str_map haddresses).bind ((reads_str hwal).bind
      ((reads_u64 hbeats).bind (reads_fenced _).last))))))

theorem reads_leases :
    Reads (get_table get_lease t) (put_table put_lease s.prepared) (put_leases t s.prepared) := by
  refine reads_table h.prepared.1 (fun t e he => ?_) t
  obtain ⟨hid, hdeadline⟩ := h.prepared.2 e he
  exact (reads_u64 hid).bind (reads_i64 hdeadline).last

theorem reads_set_objects (hshort : s.Short) :
    Reads (get_table get_set_object t) (put_table put_set_object s.stream_set_objects)
      (put_set_objects t s.stream_set_objects) := by
  refine reads_table h.stream_set_objects.1 (fun t e he => ?_) t
  obtain ⟨hnode, hobject, hsizes, hwrite⟩ := h.stream_set_objects.2 e he
  obtain ⟨hlengths, hcount⟩ := hshort.set_objects e.1 e.2 (mem_entries.1 he)
  refine (reads_i32 hnode).bind ((reads_object hobject hcount).bind ?_)
  -- the sizes are counted by the ranges
  rw [← hlengths]
  exact (Reads.many fun size hsize => reads_u64 (hsizes size hsize)).bind (reads_i64 hwrite).last

theorem reads_stream_objects (hshort : s.Short) :
    Reads (get_table get_stream_object t) (put_table put_stream_object s.stream_objects)
      (put_stream_objects t s.stream_objects) := by
  refine reads_table h.stream_objects.1 (fun t e he => ?_) t
  obtain ⟨hobject, hwrite⟩ := h.stream_objects.2 e he
  have hone := hshort.stream_objects e.1 e.2 (mem_entries.1 he)
  have hcount : IsUnsigned 32 e.2.object.offset_ranges.length := by
    rw [hone]
    decide
  refine (reads_object hobject hcount).bind ?_
  rw [if_neg (not_not.2 hone)]
  exact (reads_i64 hwrite).last

theorem reads_marks :
    Reads (get_table get_mark t) (put_table put_mark s.mark_destroyed)
      (put_marks t s.mark_destroyed) := by
  refine reads_table h.mark_destroyed.1 (fun t e he => ?_) t
  obtain ⟨hseq, hid⟩ := h.mark_destroyed.2 e he
  exact (reads_u64 hseq).bind ((reads_u64 hid).bind (reads_compact_operation _).last)

theorem reads_kvs (hshort : s.Short) :
    Reads (get_table get_kv t) (put_table put_kv s.kv) (put_kvs t s.kv) := by
  refine reads_table h.kv (fun t e he => ?_) t
  obtain ⟨hkey, hvalue⟩ := hshort.kv e.1 e.2 (mem_entries.1 he)
  exact (reads_str hkey).bind (reads_blob hvalue).last

theorem reads_transfers :
    Reads (get_table get_transfer t) (put_table put_transfer s.pending_transfers)
      (put_transfers t s.pending_transfers) := by
  refine reads_table h.pending_transfers.1 (fun t e he => ?_) t
  obtain ⟨hid, hsource, htarget⟩ := h.pending_transfers.2 e he
  exact (reads_u64 hid).bind ((reads_i32 hsource).bind (reads_i32 htarget).last)

theorem reads_epochs :
    Reads (get_table get_epoch t) (put_table put_epoch s.epochs) (put_epochs t s.epochs) := by
  refine reads_table h.epochs.1 (fun t e he => ?_) t
  obtain ⟨hid, hepoch, hstart⟩ := h.epochs.2 e he
  exact (reads_u64 hid).bind ((reads_i64 hepoch).bind (reads_u64 hstart).last)

/-- The encoding of a state is read by putting its rows back. -/
theorem reads_state (hshort : s.Short) : Reads get_state (encode s) (restore s) :=
  reads_check_version.bind ((reads_u64 h.next_stream_id).bind ((reads_streams h _).bind
    ((reads_nodes h _ hshort).bind ((reads_u64 h.next_producer_id).bind
      ((reads_u64 h.next_object_id).bind ((reads_leases h _).bind
        ((reads_set_objects h _ hshort).bind ((reads_stream_objects h _ hshort).bind
          ((reads_marks h _).bind ((reads_u64 h.next_destroyed_seq).bind
            ((reads_kvs h _ hshort).bind ((reads_transfers h _).bind (reads_epochs h _)))))))))))))

end

/-- Restoring the snapshot of a reachable state gives that state, and no proper prefix or extension
of a snapshot can be restored. -/
theorem snapshot_round_trip (h : Reached noop s) (hrange : s.InRange) :
    decode (encode s) = .ok s ∧
      (∀ bytes missing, encode s = bytes ++ missing → missing ≠ [] →
        ∃ e, decode bytes = .error e) ∧
      ∀ more, more ≠ [] → ∃ e, decode (encode s ++ more) = .error e := by
  have hreads := reads_state hrange h.short
  rw [restore_eq h.wf fun id node => h.node_keyed] at hreads
  refine ⟨hreads.decode, ?_, fun more hne => hreads.decode_append hne⟩
  intro bytes missing hbytes hne
  rw [hbytes] at hreads
  exact hreads.decode_left hne

/-- A node registers, opens a stream and commits an object with one range of it. -/
def upload : List MetadataCommand :=
  [.registerNode 1 10 "n1:9090" 1 .empty "2@wal", .createStream ⟨1, 10⟩, .openStream ⟨1, 10⟩ 0 0,
    .prepareObject ⟨1, 10⟩ 2 1000 0,
    .commitStreamSetObject ⟨1, 10⟩ ⟨0, 64, 0, [⟨0, 0, 0, 5, 64⟩], [], []⟩ 7]

theorem upload_fits : ListFits MetadataCommand.Fits upload := by
  have hp : Proposer.Fits ⟨1, 10⟩ := ⟨by decide, by decide⟩
  refine ⟨by decide, ?_⟩
  simp only [upload, List.mem_cons, List.not_mem_nil, or_false, forall_eq_or_imp, forall_eq]
  refine ⟨⟨nofun, by decide, by decide, ?_, by decide, ⟨by decide, nofun⟩, ?_⟩,
    Codec.fits_of_proposer rfl hp trivial, Codec.fits_of_proposer rfl hp ⟨by decide, by decide⟩,
    Codec.fits_of_proposer rfl hp ⟨by decide, by decide, by decide⟩,
    Codec.fits_of_proposer rfl hp ⟨by decide, by decide, by decide, by decide, ⟨by decide, ?_⟩,
      ⟨by decide, nofun⟩, by decide, nofun⟩⟩
  · exact (by decide : 7 < 2 ^ 32)
  · exact (by decide : 5 < 2 ^ 32)
  · intro range hmem
    cases List.mem_singleton.1 hmem
    exact ⟨by decide, by decide, by decide, by decide, by decide⟩

theorem snapshot_round_trip_after_upload :
    (history 1000 upload 5).stream_set_objects.keys = [0] ∧
      decode (encode (history 1000 upload 5)) = .ok (history 1000 upload 5) := by
  have hreached : Reached 1000 (history 1000 upload 5) := by
    refine ⟨[Codec.encode_batch upload], [upload], 5, ?_, by rw [List.flatten_singleton]⟩
    rw [List.mapM_cons, Codec.decode_encode_batch upload_fits]
    rfl
  have hrange : (history 1000 upload 5).InRange := by constructor <;> decide +kernel
  exact ⟨by decide +kernel, (snapshot_round_trip hreached hrange).1⟩

end Snapshot

end PicoMq.Metadata
