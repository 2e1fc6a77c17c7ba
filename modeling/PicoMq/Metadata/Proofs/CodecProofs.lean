import PicoMq.Library.Proofs.OrdMapProofs
import PicoMq.Library.Proofs.WireProofs
import PicoMq.Metadata.Codec

/-!
# Proofs: the command codec

Every reader takes back what the writer of the same field put down.
-/

namespace PicoMq.Metadata

open OrdMap Wire Wire.Reader

/-! ## Fields -/

namespace Fields

variable {ε α : Type} {corrupt : String → ε}

theorem reads_u8 {n : ℕ} (h : IsUnsigned 8 n) : Reads (get_u8 corrupt) (put_u8 n) n :=
  reads_word h

theorem reads_u32 {n : ℕ} (h : IsUnsigned 32 n) : Reads (get_u32 corrupt) (put_u32_le n) n :=
  reads_word h

theorem reads_u64 {n : ℕ} (h : IsUnsigned 64 n) : Reads (get_u64 corrupt) (put_u64_le n) n :=
  reads_word h

theorem reads_signed {width bits : ℕ} {truncated : ε} {x : ℤ} (hbits : bits + 1 = 8 * width)
    (h : IsSigned bits x) :
    Reads (do let n ← Reader.word width truncated; pure (to_signed bits n))
      (le_bytes width (to_unsigned bits x)) x := by
  have hword : IsUnsigned (8 * width) (to_unsigned bits x) := hbits ▸ to_unsigned_lt bits x
  have hread : Reads (do let n ← Reader.word width truncated; pure (to_signed bits n)) _ _ :=
    (reads_word hword).last
  rwa [to_signed_to_unsigned h] at hread

theorem reads_i32 {x : ℤ} (h : IsSigned 31 x) : Reads (get_i32 corrupt) (put_i32_le x) x :=
  reads_signed rfl h

theorem reads_i64 {x : ℤ} (h : IsSigned 63 x) : Reads (get_i64 corrupt) (put_i64_le x) x :=
  reads_signed rfl h

theorem reads_blob {what : String} {value : Bytes} (h : BlobFits value) :
    Reads (get_blob corrupt what) (put_blob value) value :=
  (reads_u32 h).bind (Reads.take rfl)

theorem reads_str {s : String} (h : StrFits s) : Reads (get_str corrupt) (put_str s) s := by
  refine (reads_u32 h).bind ?_
  rw [← List.append_nil (utf8 s)]
  refine (Reads.take (length_utf8 s)).bind ?_
  rw [of_utf8_utf8]
  exact Reads.pure

theorem reads_list {P : α → Prop} {get : Reader ε α} {put : α → Bytes} {l : List α}
    (h : ListFits P l) (hget : ∀ a, P a → Reads get (put a) a) :
    Reads (get_list corrupt get) (put_list put l) l :=
  (reads_u32 h.1).bind (Reads.many fun a ha => hget a (h.2 a ha))

theorem reads_str_map {map : OrdMap String String} (h : StrMapFits map) :
    Reads (get_str_map corrupt) (put_str_map map) map := by
  have hloop : Reads (loop (get_str_entry corrupt) map.entries.length .empty)
      (map.entries.flatMap fun e => put_str e.1 ++ put_str e.2) (ofList map.entries) :=
    Reads.loop (fun m e he => (reads_str (h.2 e he).1).bind (reads_str (h.2 e he).2).last)
      empty
  rw [ofList_entries] at hloop
  exact (reads_u32 h.1).bind hloop

theorem reads_stream_state (state : StreamState) :
    Reads (get_stream_state corrupt) (put_stream_state state) state := by
  cases state with
  | closed => exact fun rest => rfl
  | opened => exact fun rest => rfl

theorem reads_compact_operation (op : CompactOperations) :
    Reads (get_compact_operation corrupt) (put_compact_operation op) op := by
  cases op with
  | delete => exact fun rest => rfl
  | keepData => exact fun rest => rfl
  | deepDelete => exact fun rest => rfl

/-! ### What the readers yield -/

theorem yields_u32 : (get_u32 corrupt).Yields (IsUnsigned 32) := yields_word 4 _

theorem yields_u64 : (get_u64 corrupt).Yields (IsUnsigned 64) := yields_word 8 _

theorem yields_i32 : (get_i32 corrupt).Yields (IsSigned 31) :=
  .bind fun n => .pure (isSigned_to_signed 31 n)

theorem yields_i64 : (get_i64 corrupt).Yields (IsSigned 63) :=
  .bind fun n => .pure (isSigned_to_signed 63 n)

theorem yields_blob (what : String) : (get_blob corrupt what).Yields BlobFits := by
  refine yields_u32.bind_of fun len hlen => ?_
  intro bytes blob rest hrun
  have hblob := yields_take len _ bytes blob rest hrun
  show IsUnsigned 32 blob.length
  rwa [hblob]

theorem yields_str : (get_str corrupt).Yields StrFits := by
  refine yields_u32.bind_of fun len hlen => (yields_take len _).bind_of fun bytes hbytes => ?_
  cases hs : of_utf8 bytes with
  | none => exact .fail _
  | some s =>
    refine .pure ?_
    show IsUnsigned 32 s.utf8ByteSize
    rwa [length_of_of_utf8 hs, hbytes]

theorem yields_list {P : α → Prop} {get : Reader ε α} (h : get.Yields P) :
    (get_list corrupt get).Yields (ListFits P) := by
  refine yields_u32.bind_of fun count hcount => ?_
  intro bytes l rest hrun
  obtain ⟨hlength, hl⟩ := h.many count bytes l rest hrun
  refine ⟨?_, hl⟩
  rwa [hlength]

theorem yields_str_entry {k : ℕ} {map : OrdMap String String}
    (h : map.entries.length ≤ k ∧ ∀ e ∈ map.entries, StrFits e.1 ∧ StrFits e.2) :
    (get_str_entry corrupt map).Yields fun map =>
      map.entries.length ≤ k + 1 ∧ ∀ e ∈ map.entries, StrFits e.1 ∧ StrFits e.2 := by
  refine yields_str.bind_of fun key hkey => yields_str.bind_of fun value hvalue => .pure ⟨?_, ?_⟩
  · have hlength := length_insertEntry_le key value map.entries
    exact hlength.trans (Nat.succ_le_succ h.1)
  · intro e he
    rcases mem_insertEntry he with rfl | he
    · exact ⟨hkey, hvalue⟩
    · exact h.2 e he

theorem yields_str_map : (get_str_map corrupt).Yields StrMapFits := by
  refine yields_u32.bind_of fun len hlen => ?_
  intro bytes map rest hrun
  have hloop := Yields.loop (P := fun k (map : OrdMap String String) =>
      map.entries.length ≤ k ∧ ∀ e ∈ map.entries, StrFits e.1 ∧ StrFits e.2)
    (fun k map h => yields_str_entry h) (k := 0) (by simp [empty]) bytes map rest hrun
  rw [Nat.zero_add] at hloop
  exact ⟨Nat.lt_of_le_of_lt hloop.1 hlen, hloop.2⟩

end Fields

open Fields

namespace Codec

/-! ## Requests -/

theorem reads_check_version : Reads check_version (put_u8 CODEC_VERSION) () := fun _ => rfl

theorem reads_proposer {p : Proposer} (h : p.Fits) : Reads get_proposer (put_proposer p) p :=
  (reads_i32 h.1).bind (reads_i64 h.2).last

theorem reads_stream_range {range : ObjectStreamRange} (h : range.Fits) :
    Reads get_stream_range (put_stream_range range) range := by
  obtain ⟨hstream, hepoch, hstart, hend, hsize⟩ := h
  exact (reads_u64 hstream).bind ((reads_u64 hepoch).bind ((reads_u64 hstart).bind
    ((reads_u64 hend).bind (reads_u64 hsize).last)))

theorem reads_stream_object {object : StreamObject} (h : object.Fits) :
    Reads get_stream_object (put_stream_object object) object := by
  obtain ⟨hid, hsize, hstream, hstart, hend, hattributes⟩ := h
  exact (reads_u64 hid).bind ((reads_u64 hsize).bind ((reads_u64 hstream).bind
    ((reads_u64 hstart).bind ((reads_u64 hend).bind (reads_u32 hattributes).last))))

theorem reads_commit_request {request : CommitStreamSetObjectRequest} (h : request.Fits) :
    Reads get_commit_request (put_commit_request request) request := by
  obtain ⟨hid, hsize, hattributes, hranges, hobjects, hcompacted⟩ := h
  exact (reads_u64 hid).bind ((reads_u64 hsize).bind ((reads_u32 hattributes).bind
    ((reads_list hranges fun _ => reads_stream_range).bind
      ((reads_list hobjects fun _ => reads_stream_object).bind
        (reads_list hcompacted fun _ => reads_u64).last))))

theorem reads_compact_request {request : CompactStreamObjectRequest} (h : request.Fits) :
    Reads get_compact_request (put_compact_request request) request := by
  obtain ⟨hid, hsize, hstream, hepoch, hstart, hend, hattributes, hsources, hops⟩ := h
  exact (reads_u64 hid).bind ((reads_u64 hsize).bind ((reads_u64 hstream).bind
    ((reads_u64 hepoch).bind ((reads_u64 hstart).bind ((reads_u64 hend).bind
      ((reads_u32 hattributes).bind ((reads_list hsources fun _ => reads_u64).bind
        (reads_list hops fun op _ => reads_compact_operation op).last)))))))

/-! ## Commands -/

theorem reads_node_id {node_id : Option ℤ} (h : ∀ id ∈ node_id, IsSigned 31 id) :
    Reads get_node_id (put_node_id node_id) node_id := by
  cases node_id with
  | none => exact fun rest => rfl
  | some id => exact (reads_u8 (by decide)).bind (reads_i32 (h id rfl)).last

section Shapes

variable {p : Proposer} (hp : p.Fits)

include hp

theorem reads_stream_epoch {make : Proposer → ℕ → ℤ → MetadataCommand} {sid : ℕ} {epoch : ℤ}
    (h : IsUnsigned 64 sid ∧ IsSigned 63 epoch) :
    Reads (get_stream_epoch make) (put_proposer p ++ (put_u64_le sid ++ put_i64_le epoch))
      (make p sid epoch) :=
  (reads_proposer hp).bind ((reads_u64 h.1).bind (reads_i64 h.2).last)

theorem reads_key_blob {make : Proposer → String → Bytes → MetadataCommand} {key : String}
    {blob : Bytes} (h : StrFits key ∧ BlobFits blob) :
    Reads (get_key_blob make) (put_proposer p ++ (put_str key ++ put_blob blob))
      (make p key blob) :=
  (reads_proposer hp).bind ((reads_str h.1).bind (reads_blob h.2).last)

theorem reads_count {make : Proposer → ℕ → MetadataCommand} {count : ℕ}
    (h : IsUnsigned 32 count) :
    Reads (get_count make) (put_proposer p ++ put_u32_le count) (make p count) :=
  (reads_proposer hp).bind (reads_u32 h).last

end Shapes

theorem reads_fields {command : MetadataCommand} (h : command.Fits) :
    Reads (get_fields (type_code command))
      (command.proposer.elim [] put_proposer ++ put_fields command) command := by
  obtain ⟨hproposer, hfields⟩ := h
  cases command with
  | registerNode =>
    obtain ⟨hnode, hepoch, haddress, hslots, haddresses, hwal⟩ := hfields
    exact (reads_i32 hnode).bind ((reads_i64 hepoch).bind ((reads_str haddress).bind
      ((reads_u32 hslots).bind ((reads_str_map haddresses).bind (reads_str hwal).last))))
  | setNodeSlots p =>
    exact (reads_proposer (hproposer p rfl)).bind
      ((reads_i32 hfields.1).bind (reads_u32 hfields.2).last)
  | heartbeat p => exact (reads_proposer (hproposer p rfl)).bind Reads.pure
  | createStream p => exact (reads_proposer (hproposer p rfl)).bind Reads.pure
  | fenceNode p =>
    obtain ⟨hnode, hepoch, hbeats⟩ := hfields
    exact (reads_proposer (hproposer p rfl)).bind
      ((reads_i32 hnode).bind ((reads_i64 hepoch).bind (reads_u64 hbeats).last))
  | openStream p => exact reads_stream_epoch (hproposer p rfl) hfields
  | closeStream p => exact reads_stream_epoch (hproposer p rfl) hfields
  | deleteStream p => exact reads_stream_epoch (hproposer p rfl) hfields
  | completeTransfer p => exact reads_stream_epoch (hproposer p rfl) hfields
  | trimStream p =>
    obtain ⟨hstream, hepoch, hstart⟩ := hfields
    exact (reads_proposer (hproposer p rfl)).bind
      ((reads_u64 hstream).bind ((reads_i64 hepoch).bind (reads_u64 hstart).last))
  | prepareObject p =>
    obtain ⟨hcount, httl, hnow⟩ := hfields
    exact (reads_proposer (hproposer p rfl)).bind
      ((reads_u32 hcount).bind ((reads_i64 httl).bind (reads_i64 hnow).last))
  | commitStreamSetObject p =>
    exact (reads_proposer (hproposer p rfl)).bind
      ((reads_i64 hfields.1).bind (reads_commit_request hfields.2).last)
  | compactStreamObject p =>
    exact (reads_proposer (hproposer p rfl)).bind
      ((reads_i64 hfields.1).bind (reads_compact_request hfields.2).last)
  | expirePreparedObjects p =>
    exact (reads_proposer (hproposer p rfl)).bind (reads_i64 hfields).last
  | cleanDestroyedObjects p =>
    exact (reads_proposer (hproposer p rfl)).bind (reads_list hfields fun _ => reads_u64).last
  | putKv p => exact reads_key_blob (hproposer p rfl) hfields
  | putKvIfAbsent p => exact reads_key_blob (hproposer p rfl) hfields
  | deleteKv p => exact (reads_proposer (hproposer p rfl)).bind (reads_str hfields).last
  | deleteKvIfMatches p => exact reads_key_blob (hproposer p rfl) hfields
  | putKvIfMatches p =>
    obtain ⟨hkey, hexpected, hvalue⟩ := hfields
    exact (reads_proposer (hproposer p rfl)).bind
      ((reads_str hkey).bind ((reads_blob hexpected).bind (reads_blob hvalue).last))
  | transferStream p =>
    obtain ⟨hstream, hsource, htarget⟩ := hfields
    exact (reads_proposer (hproposer p rfl)).bind
      ((reads_u64 hstream).bind ((reads_i32 hsource).bind (reads_i32 htarget).last))
  | createStreams p => exact reads_count (hproposer p rfl) hfields
  | allocateProducerIds p => exact reads_count (hproposer p rfl) hfields
  | placeStream p =>
    exact (reads_proposer (hproposer p rfl)).bind
      ((reads_u64 hfields.1).bind (reads_node_id hfields.2).last)

theorem type_code_fits (command : MetadataCommand) : IsUnsigned 8 (type_code command) := by
  cases command <;> simp [type_code, IsUnsigned]

theorem reads_command_body {command : MetadataCommand} (h : command.Fits) :
    Reads get_command_body (put_command_body command) command :=
  (reads_u8 (type_code_fits command)).bind (reads_fields h)

/-! ## Decoded commands fit the format -/

theorem yields_proposer : get_proposer.Yields Proposer.Fits :=
  yields_i32.bind_of fun _ hnode => yields_i64.bind_of fun _ hepoch => .pure ⟨hnode, hepoch⟩

theorem yields_stream_range : get_stream_range.Yields ObjectStreamRange.Fits :=
  yields_u64.bind_of fun _ hstream => yields_u64.bind_of fun _ hepoch =>
    yields_u64.bind_of fun _ hstart => yields_u64.bind_of fun _ hend =>
      yields_u64.bind_of fun _ hsize => .pure ⟨hstream, hepoch, hstart, hend, hsize⟩

theorem yields_stream_object : get_stream_object.Yields StreamObject.Fits :=
  yields_u64.bind_of fun _ hid => yields_u64.bind_of fun _ hsize =>
    yields_u64.bind_of fun _ hstream => yields_u64.bind_of fun _ hstart =>
      yields_u64.bind_of fun _ hend => yields_u32.bind_of fun _ hattributes =>
        .pure ⟨hid, hsize, hstream, hstart, hend, hattributes⟩

theorem yields_commit_request : get_commit_request.Yields CommitStreamSetObjectRequest.Fits :=
  yields_u64.bind_of fun _ hid => yields_u64.bind_of fun _ hsize =>
    yields_u32.bind_of fun _ hattributes =>
      (yields_list yields_stream_range).bind_of fun _ hranges =>
        (yields_list yields_stream_object).bind_of fun _ hobjects =>
          (yields_list yields_u64).bind_of fun _ hcompacted =>
            .pure ⟨hid, hsize, hattributes, hranges, hobjects, hcompacted⟩

theorem yields_compact_request : get_compact_request.Yields CompactStreamObjectRequest.Fits :=
  yields_u64.bind_of fun _ hid => yields_u64.bind_of fun _ hsize =>
    yields_u64.bind_of fun _ hstream => yields_u64.bind_of fun _ hepoch =>
      yields_u64.bind_of fun _ hstart => yields_u64.bind_of fun _ hend =>
        yields_u32.bind_of fun _ hattributes => (yields_list yields_u64).bind_of fun _ hsources =>
          (yields_list fun _ _ _ _ => trivial).bind_of fun _ hops =>
            .pure ⟨hid, hsize, hstream, hepoch, hstart, hend, hattributes, hsources, hops⟩

theorem fits_of_proposer {command : MetadataCommand} {p : Proposer}
    (hproposer : command.proposer = some p) (hp : p.Fits) (h : command.FieldsFit) :
    command.Fits := by
  refine ⟨fun q hq => ?_, h⟩
  cases hproposer.symm.trans hq
  exact hp

theorem yields_node_id : get_node_id.Yields fun node_id => ∀ id ∈ node_id, IsSigned 31 id := by
  refine .bind fun byte => ?_
  split
  · exact .pure (by simp)
  · refine yields_i32.bind_of fun node_id hnode => .pure fun id hid => ?_
    cases hid
    exact hnode

section Shapes

variable {P : MetadataCommand → Prop} {commands : List MetadataCommand}

theorem yields_stream_epoch {make : Proposer → ℕ → ℤ → MetadataCommand}
    (h : ∀ p, p.Fits → ∀ sid epoch, IsUnsigned 64 sid ∧ IsSigned 63 epoch → P (make p sid epoch)) :
    (get_stream_epoch make).Yields P :=
  yields_proposer.bind_of fun p hp => yields_u64.bind_of fun sid hstream =>
    yields_i64.bind_of fun epoch hepoch => .pure (h p hp sid epoch ⟨hstream, hepoch⟩)

theorem yields_key_blob {make : Proposer → String → Bytes → MetadataCommand}
    (h : ∀ p, p.Fits → ∀ key blob, StrFits key ∧ BlobFits blob → P (make p key blob)) :
    (get_key_blob make).Yields P :=
  yields_proposer.bind_of fun p hp => yields_str.bind_of fun key hkey =>
    (yields_blob _).bind_of fun blob hblob => .pure (h p hp key blob ⟨hkey, hblob⟩)

theorem yields_count {make : Proposer → ℕ → MetadataCommand}
    (h : ∀ p, p.Fits → ∀ count, IsUnsigned 32 count → P (make p count)) :
    (get_count make).Yields P :=
  yields_proposer.bind_of fun p hp => yields_u32.bind_of fun count hcount =>
    .pure (h p hp count hcount)

end Shapes

theorem yields_fields (type_code : ℕ) : (get_fields type_code).Yields MetadataCommand.Fits := by
  unfold get_fields
  split
  · exact yields_i32.bind_of fun _ hnode => yields_i64.bind_of fun _ hepoch =>
      yields_str.bind_of fun _ haddress => yields_u32.bind_of fun _ hslots =>
        yields_str_map.bind_of fun _ haddresses => yields_str.bind_of fun _ hwal =>
          .pure ⟨nofun, hnode, hepoch, haddress, hslots, haddresses, hwal⟩
  · exact yields_proposer.bind_of fun _ hp => .pure (fits_of_proposer rfl hp trivial)
  · exact yields_stream_epoch fun _ hp _ _ h => fits_of_proposer rfl hp h
  · exact yields_proposer.bind_of fun _ hp => yields_u64.bind_of fun _ hstream =>
      yields_i64.bind_of fun _ hepoch => yields_u64.bind_of fun _ hstart =>
        .pure (fits_of_proposer rfl hp ⟨hstream, hepoch, hstart⟩)
  · exact yields_stream_epoch fun _ hp _ _ h => fits_of_proposer rfl hp h
  · exact yields_stream_epoch fun _ hp _ _ h => fits_of_proposer rfl hp h
  · exact yields_proposer.bind_of fun _ hp => yields_u32.bind_of fun _ hcount =>
      yields_i64.bind_of fun _ httl => yields_i64.bind_of fun _ hnow =>
        .pure (fits_of_proposer rfl hp ⟨hcount, httl, hnow⟩)
  · exact yields_proposer.bind_of fun _ hp => yields_i64.bind_of fun _ hnow =>
      yields_commit_request.bind_of fun _ hrequest =>
        .pure (fits_of_proposer rfl hp ⟨hnow, hrequest⟩)
  · exact yields_proposer.bind_of fun _ hp => yields_i64.bind_of fun _ hnow =>
      yields_compact_request.bind_of fun _ hrequest =>
        .pure (fits_of_proposer rfl hp ⟨hnow, hrequest⟩)
  · exact yields_proposer.bind_of fun _ hp => yields_i64.bind_of fun _ hnow =>
      .pure (fits_of_proposer rfl hp hnow)
  · exact yields_proposer.bind_of fun _ hp => (yields_list yields_u64).bind_of fun _ hids =>
      .pure (fits_of_proposer rfl hp hids)
  · exact yields_key_blob fun _ hp _ _ h => fits_of_proposer rfl hp h
  · exact yields_key_blob fun _ hp _ _ h => fits_of_proposer rfl hp h
  · exact yields_proposer.bind_of fun _ hp => yields_str.bind_of fun _ hkey =>
      .pure (fits_of_proposer rfl hp hkey)
  · exact yields_proposer.bind_of fun _ hp => yields_u64.bind_of fun _ hstream =>
      yields_i32.bind_of fun _ hsource => yields_i32.bind_of fun _ htarget =>
        .pure (fits_of_proposer rfl hp ⟨hstream, hsource, htarget⟩)
  · exact yields_stream_epoch fun _ hp _ _ h => fits_of_proposer rfl hp h
  · exact yields_count fun _ hp _ h => fits_of_proposer rfl hp h
  · exact yields_proposer.bind_of fun _ hp => yields_u64.bind_of fun _ hstream =>
      yields_node_id.bind_of fun _ hnode => .pure (fits_of_proposer rfl hp ⟨hstream, hnode⟩)
  · exact yields_key_blob fun _ hp _ _ h => fits_of_proposer rfl hp h
  · exact yields_count fun _ hp _ h => fits_of_proposer rfl hp h
  · exact yields_proposer.bind_of fun _ hp => yields_str.bind_of fun _ hkey =>
      (yields_blob _).bind_of fun _ hexpected => (yields_blob _).bind_of fun _ hvalue =>
        .pure (fits_of_proposer rfl hp ⟨hkey, hexpected, hvalue⟩)
  · exact yields_proposer.bind_of fun _ hp => .pure (fits_of_proposer rfl hp trivial)
  · exact yields_proposer.bind_of fun _ hp => yields_i32.bind_of fun _ hnode =>
      yields_i64.bind_of fun _ hepoch => yields_u64.bind_of fun _ hbeats =>
        .pure (fits_of_proposer rfl hp ⟨hnode, hepoch, hbeats⟩)
  · exact yields_proposer.bind_of fun _ hp => yields_i32.bind_of fun _ hnode =>
      yields_u32.bind_of fun _ hslots => .pure (fits_of_proposer rfl hp ⟨hnode, hslots⟩)
  · exact .fail _

/-- What the decoder accepts fits the format. -/
theorem fits_of_decode_batch {bytes : Bytes}
    (h : decode_batch bytes = .ok commands) : ListFits MetadataCommand.Fits commands := by
  have hcommand : get_command_body.Yields MetadataCommand.Fits := .bind yields_fields
  have hbatch : get_batch.Yields (ListFits MetadataCommand.Fits) :=
    .bind fun _ => yields_list hcommand
  exact hbatch bytes commands [] (decode_eq_ok_iff.1 h)

/-! ## Batches and results -/

theorem reads_batch (h : ListFits MetadataCommand.Fits commands) :
    Reads get_batch (encode_batch commands) commands :=
  reads_check_version.bind (reads_list h fun _ => reads_command_body)

theorem decode_encode_batch (h : ListFits MetadataCommand.Fits commands) :
    decode_batch (encode_batch commands) = .ok commands :=
  (reads_batch h).decode

theorem encode_batch_overlong (p : Proposer) {object_ids : List ℕ}
    (h : object_ids.length = 2 ^ 32) :
    encode_batch [.cleanDestroyedObjects p object_ids] =
      encode_batch [.cleanDestroyedObjects p []] ++ object_ids.flatMap put_u64_le := by
  have hcount : put_u32_le object_ids.length = put_u32_le ([] : List ℕ).length := by
    rw [h]
    decide
  simp only [encode_batch, put_list, put_command_body, put_fields, hcount, type_code,
    List.flatMap_cons, List.flatMap_nil, List.append_nil, List.append_assoc, List.length_singleton]
  rfl

theorem reads_result {result : MetadataResult} (h : result.Fits) :
    Reads get_result (encode_result result) result := by
  refine reads_check_version.bind ?_
  cases result with
  | unit => exact fun rest => rfl
  | id => exact (reads_u8 (by decide)).bind (reads_u64 h).last
  | count => exact (reads_u8 (by decide)).bind (reads_u64 h).last
  | stream metadata =>
    obtain ⟨hstream, hepoch, hstart, hend, hnode⟩ := h
    exact (reads_u8 (by decide)).bind ((reads_u64 hstream).bind ((reads_u64 hepoch).bind
      ((reads_u64 hstart).bind ((reads_u64 hend).bind
        ((reads_stream_state metadata.state).bind (reads_i32 hnode).last)))))
  | value v =>
    cases v with
    | none => exact fun rest => rfl
    | some bytes => exact (reads_u8 (by decide)).bind (reads_blob (h bytes rfl)).last

/-- A batch decodes to itself, nothing shorter or longer than its encoding decodes, and no other
batch has that encoding. Results are read back as well. -/
theorem batch_codec_round_trip {commands others : List MetadataCommand} {result : MetadataResult}
    (h : ListFits MetadataCommand.Fits commands) (hothers : ListFits MetadataCommand.Fits others)
    (hresult : result.Fits) :
    decode_batch (encode_batch commands) = .ok commands ∧
      (∀ bytes missing, encode_batch commands = bytes ++ missing → missing ≠ [] →
        ∃ e, decode_batch bytes = .error e) ∧
      (∀ more, more ≠ [] → ∃ e, decode_batch (encode_batch commands ++ more) = .error e) ∧
      (encode_batch commands = encode_batch others → commands = others) ∧
      decode_result (encode_result result) = .ok result := by
  refine ⟨decode_encode_batch h, ?_, ?_, ?_, (reads_result hresult).decode⟩
  · intro bytes missing hbytes hne
    have hreads := reads_batch h
    rw [hbytes] at hreads
    exact hreads.decode_left hne
  · intro more hne
    exact (reads_batch h).decode_append hne
  · intro heq
    have hsame : Except.ok (ε := CodecError) commands = .ok others := by
      rw [← decode_encode_batch h, heq, decode_encode_batch hothers]
    exact Except.ok.inj hsame

theorem batch_codec_round_trip_two_commands :
    decode_batch (encode_batch [.heartbeat ⟨1, 2⟩, .putKv ⟨1, 2⟩ "key" [7, 8]]) =
        .ok [.heartbeat ⟨1, 2⟩, .putKv ⟨1, 2⟩ "key" [7, 8]] ∧
      encode_batch [.heartbeat ⟨1, 2⟩, .putKv ⟨1, 2⟩ "key" [7, 8]] ≠
        encode_batch [.placeStream ⟨1, 2⟩ 5 (some (-3))] ∧
      decode_result (encode_result (.value (some [9]))) = .ok (.value (some [9])) := by
  have hp : ∀ p ∈ some (⟨1, 2⟩ : Proposer), p.Fits := by
    intro p hp
    cases hp
    exact ⟨by decide, by decide⟩
  have hheartbeat : (MetadataCommand.heartbeat ⟨1, 2⟩).Fits := ⟨hp, trivial⟩
  have hkv : (MetadataCommand.putKv ⟨1, 2⟩ "key" [7, 8]).Fits :=
    ⟨hp, (by decide : 3 < 2 ^ 32), (by decide : 2 < 2 ^ 32)⟩
  have hplace : (MetadataCommand.placeStream ⟨1, 2⟩ 5 (some (-3))).Fits :=
    ⟨hp, by decide, fun node_id hnode => by cases hnode; decide⟩
  have hbatch : ListFits MetadataCommand.Fits [.heartbeat ⟨1, 2⟩, .putKv ⟨1, 2⟩ "key" [7, 8]] :=
    ⟨by decide, by simp [hheartbeat, hkv]⟩
  have hother : ListFits MetadataCommand.Fits [.placeStream ⟨1, 2⟩ 5 (some (-3))] :=
    ⟨by decide, by simp [hplace]⟩
  have hvalue : (MetadataResult.value (some [9])).Fits := fun bytes hbytes => by
    cases hbytes
    exact (by decide : 1 < 2 ^ 32)
  obtain ⟨hsame, -, -, hinjective, hresult⟩ := batch_codec_round_trip hbatch hother hvalue
  refine ⟨hsame, fun heq => ?_, hresult⟩
  cases hinjective heq

/-- The count is cast to 32 bits: a list of `2 ^ 32` ids is written as an empty one. -/
theorem overlong_list_not_decoded :
    ∃ object_ids : List ℕ, object_ids = List.replicate (2 ^ 32) 0 ∧
      ∃ e, decode_batch (encode_batch [.cleanDestroyedObjects ⟨0, 0⟩ object_ids]) = .error e := by
  refine ⟨_, rfl, ?_⟩
  have hempty : (MetadataCommand.cleanDestroyedObjects ⟨0, 0⟩ []).Fits :=
    ⟨fun p hp => by cases hp; exact ⟨by decide, by decide⟩, by decide, by simp⟩
  have hreads : Reads get_batch (encode_batch [.cleanDestroyedObjects ⟨0, 0⟩ []]) _ :=
    reads_batch ⟨by decide, by simp [hempty]⟩
  rw [encode_batch_overlong ⟨0, 0⟩ List.length_replicate]
  refine hreads.decode_append fun hnil => ?_
  have hfirst := List.flatMap_eq_nil_iff.1 hnil 0 (List.mem_replicate.2 ⟨by norm_num, rfl⟩)
  exact absurd hfirst (by decide)

end Codec

end PicoMq.Metadata
