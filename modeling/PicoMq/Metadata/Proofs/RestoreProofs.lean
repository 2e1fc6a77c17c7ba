import PicoMq.Metadata.Proofs.DerivedProofs

/-!
# Proofs: rebuilding a state from its primary tables

The rebuilt state is well formed, and such a state is determined by its primary tables.
-/

namespace PicoMq.Metadata

open MetadataState Option OrdMap StreamTables

variable {s s' t : MetadataState}

/-! ## The primary tables -/

/-- The tables that the others are derived from, the rows of the streams without byte counts. -/
structure Primary where
  cluster : ClusterTables
  control : ℕ → Option StreamRow
  prepared : OrdMap ℕ ℤ
  stream_set_objects : OrdMap ℕ StreamSetObjectRow
  stream_objects : OrdMap StreamOffsetKey StreamObjectRow
  mark_destroyed : OrdMap ℕ (ℕ × CompactOperations)
  next_destroyed_seq : ℕ
  kv : OrdMap String Bytes

def MetadataState.primary (s : MetadataState) : Primary where
  cluster := s.toClusterTables
  control := s.toStreamTables.control
  prepared := s.prepared
  stream_set_objects := s.stream_set_objects
  stream_objects := s.stream_objects
  mark_destroyed := s.mark_destroyed
  next_destroyed_seq := s.next_destroyed_seq
  kv := s.kv

theorem stream_bytes_congr (hset : s.stream_set_objects = s'.stream_set_objects)
    (hobjects : s.stream_objects = s'.stream_objects) (sid : ℕ) :
    s.toObjectTables.stream_bytes sid = s'.toObjectTables.stream_bytes sid := by
  rw [ObjectTables.stream_bytes, ObjectTables.stream_bytes, hset, hobjects]

theorem streams_of_control (h : s.Wf) (h' : s'.Wf)
    (hcontrol : s.toStreamTables.control = s'.toStreamTables.control)
    (hbytes : ∀ sid, s.toObjectTables.stream_bytes sid = s'.toObjectTables.stream_bytes sid) :
    s.streams = s'.streams := by
  refine OrdMap.ext fun sid => ?_
  have hsid := congrFun hcontrol sid
  cases hrow : s.streams.get sid with
  | none =>
    rw [control_eq_none_iff.2 hrow] at hsid
    exact (control_eq_none_iff.1 hsid.symm).symm
  | some row =>
    rw [control_eq_some hrow] at hsid
    obtain ⟨row', hrow', heq⟩ := exists_of_control hsid.symm
    have hstored : row.stored_bytes = row'.stored_bytes := by
      rw [h.stream_bytes sid row hrow, h'.stream_bytes sid row' hrow', hbytes sid]
    rw [hrow']
    cases row
    cases row'
    simp only [StreamRow.control, StreamRow.mk.injEq] at heq hstored
    simp [heq, hstored]

/-- A well-formed state is determined by its primary tables. -/
theorem eq_of_primary (h : s.Wf) (h' : s'.Wf) (hprimary : s.primary = s'.primary) : s = s' := by
  have hcluster : s.toClusterTables = s'.toClusterTables := congrArg Primary.cluster hprimary
  have hcontrol : s.toStreamTables.control = s'.toStreamTables.control :=
    congrArg Primary.control hprimary
  have hprepared : s.prepared = s'.prepared := congrArg Primary.prepared hprimary
  have hset : s.stream_set_objects = s'.stream_set_objects :=
    congrArg Primary.stream_set_objects hprimary
  have hobjects : s.stream_objects = s'.stream_objects := congrArg Primary.stream_objects hprimary
  have hmarks : s.mark_destroyed = s'.mark_destroyed := congrArg Primary.mark_destroyed hprimary
  have hnext : s.next_destroyed_seq = s'.next_destroyed_seq :=
    congrArg Primary.next_destroyed_seq hprimary
  have hkv : s.kv = s'.kv := congrArg Primary.kv hprimary
  have hstreams := streams_of_control h h' hcontrol (stream_bytes_congr hset hobjects)
  have hd := derived_of_wf h
  have hd' := derived_of_wf h'
  have hstreamTables : s.toStreamTables = s'.toStreamTables := by
    have hopening := hd.opening_by_node.trans (hstreams ▸ hd'.opening_by_node.symm)
    have hplaced := hd.placed_by_node.trans (hstreams ▸ hd'.placed_by_node.symm)
    have hcounts := hd.streams_by_node.trans (hstreams ▸ hd'.streams_by_node.symm)
    rw [StreamTables.mk.injEq]
    exact ⟨hstreams, hopening, hplaced, hcounts⟩
  have hleases : s.toLeaseTables = s'.toLeaseTables := by
    have hdeadlines := hd.prepared_by_deadline.trans (hprepared ▸ hd'.prepared_by_deadline.symm)
    rw [LeaseTables.mk.injEq]
    exact ⟨hprepared, hdeadlines⟩
  have hobjectTables : s.toObjectTables = s'.toObjectTables := by
    have hranges := hd.sso_ranges.trans (hset ▸ hd'.sso_ranges.symm)
    have hnodes := hd.sso_by_node.trans (hset ▸ hd'.sso_by_node.symm)
    have hids := hd.stream_object_ids.trans (hobjects ▸ hd'.stream_object_ids.symm)
    rw [ObjectTables.mk.injEq]
    exact ⟨hset, hranges, hnodes, hobjects, hids⟩
  have hdestroy : s.toDestroyTables = s'.toDestroyTables := by
    have hbyId : s.destroyed_by_id = s'.destroyed_by_id := by
      refine OrdMap.ext fun id => ext fun seq => ?_
      rw [hd.destroyed_by_id, hd'.destroyed_by_id, hmarks]
    rw [DestroyTables.mk.injEq]
    exact ⟨hmarks, hbyId, hnext⟩
  have hkvTables : s.toKvTables = s'.toKvTables := by
    have hbytes := hd.kv_bytes.trans (hkv ▸ hd'.kv_bytes.symm)
    rw [KvTables.mk.injEq]
    exact ⟨hkv, hbytes⟩
  have hstored : s.stored_bytes = s'.stored_bytes := by
    rw [h.stored_bytes, h'.stored_bytes, hobjectTables]
  have hexact : s.underflowed = s'.underflowed := by
    rw [h.exact_arithmetic, h'.exact_arithmetic]
  rw [MetadataState.mk.injEq]
  exact ⟨hcluster, hstreamTables, hleases, hobjectTables, hdestroy, hkvTables, hstored, hexact⟩

/-! ## Table by table

Each loop of the restoration starts from a state in which its table is empty and fills it. -/

/-- A well-formed state with these primary tables. -/
structure Holds (t : MetadataState) (p : Primary) : Prop where
  wf : t.Wf
  primary : t.primary = p

variable {p : Primary}

theorem Holds.eq (h : Holds t s.primary) (hs : s.Wf) : t = s := eq_of_primary h.wf hs h.primary

theorem Holds.next_stream_id (h : Holds t p) : t.next_stream_id = p.cluster.next_stream_id :=
  congrArg (·.cluster.next_stream_id) h.primary

theorem holds_start (next_stream_id : ℕ) :
    Holds { next_stream_id } (MetadataState.primary { next_stream_id }) where
  wf := { Wf.empty with
    fresh_streams := nofun
    fresh_slices := nofun
    fresh_objects := nofun }
  primary := rfl

theorem Holds.set_cluster (h : Holds t p) (cluster : ClusterTables)
    (hstream : cluster.next_stream_id = t.next_stream_id)
    (hobject : cluster.next_object_id = t.next_object_id) :
    Holds { t with toClusterTables := cluster } { p with cluster } :=
  ⟨h.wf.set_cluster hstream hobject, by rw [← h.primary]; rfl⟩

theorem Holds.set_counters (h : Holds t p) (cluster : ClusterTables)
    (hstream : cluster.next_stream_id = t.next_stream_id) (hempty : p.prepared = .empty) :
    Holds { t with toClusterTables := cluster } { p with cluster } := by
  refine ⟨{ h.wf with
    fresh_streams := fun sid row hrow => hstream ▸ h.wf.fresh_streams sid row hrow
    fresh_slices := fun id row hrow slice hslice =>
      hstream ▸ h.wf.fresh_slices id row hrow slice hslice
    fresh_objects := fun key row hrow => hstream ▸ h.wf.fresh_objects key row hrow
    fresh_leases := fun id deadline hlease => ?_ }, by rw [← h.primary]; rfl⟩
  have hprepared : t.prepared = .empty := (congrArg Primary.prepared h.primary).trans hempty
  rw [show t.prepared = _ from hprepared] at hlease
  cases hlease

def put_streams (t : MetadataState) (streams : OrdMap ℕ StreamRow) : MetadataState :=
  streams.entries.foldl (fun t e => t.put_stream e.2.control) t

theorem put_streams_holds {streams : OrdMap ℕ StreamRow} (h : Holds t p)
    (hempty : p.control = fun _ => none) (hset : p.stream_set_objects = .empty)
    (hobjects : p.stream_objects = .empty)
    (hkeyed : ∀ sid row, streams.get sid = some row → row.stream_id = sid)
    (hfresh : ∀ sid row, streams.get sid = some row → sid < p.cluster.next_stream_id) :
    Holds (put_streams t streams)
      { p with control := fun sid => (streams.get sid).map StreamRow.control } := by
  refine foldl_entries
    (Q := fun m t' => Holds t' { p with control := fun sid => (m.get sid).map StreamRow.control })
    (fun m t' sid row hsid _ hrow hQ => ?_) ?_
  · have hid : row.stream_id = sid := hkeyed sid row hrow
    have hnone : t'.streams.get sid = none := by
      rw [← control_eq_none_iff]
      refine (congrFun (congrArg Primary.control hQ.primary) sid).trans ?_
      simp [hsid]
    have hbytes : t'.toObjectTables.stream_bytes sid = 0 := by
      have hset' : t'.stream_set_objects = .empty :=
        (congrArg Primary.stream_set_objects hQ.primary).trans hset
      have hobjects' : t'.stream_objects = .empty :=
        (congrArg Primary.stream_objects hQ.primary).trans hobjects
      rw [ObjectTables.stream_bytes, hset', hobjects']
      rfl
    have hlt : sid < t'.next_stream_id := by
      rw [hQ.next_stream_id]
      exact hfresh sid row hrow
    subst hid
    have hwf : (t'.put_stream row.control).Wf := hQ.wf.put_new_stream hnone hbytes hlt
    refine ⟨hwf, ?_⟩
    have hcontrol : (t'.put_stream row.control).toStreamTables.control =
        fun sid => ((m.insert row.stream_id row).get sid).map StreamRow.control := by
      funext sid
      refine (control_put_stream _ _).trans ?_
      show (if sid = row.stream_id then some row.control else t'.control sid) = _
      rw [get_insert]
      by_cases hs : sid = row.stream_id
      · rw [if_pos hs, if_pos hs]; rfl
      · rw [if_neg hs, if_neg hs]
        exact congrFun (congrArg Primary.control hQ.primary) sid
    show { t'.primary with control := (t'.put_stream row.control).toStreamTables.control } = _
    rw [hcontrol, hQ.primary]
  · show Holds t { p with control := fun _ => none }
    rw [← hempty]
    exact h

def put_leases (t : MetadataState) (prepared : OrdMap ℕ ℤ) : MetadataState :=
  prepared.entries.foldl (fun t e => t.put_prepared e.1 e.2) t

theorem put_leases_holds {prepared : OrdMap ℕ ℤ} (h : Holds t p) (hempty : p.prepared = .empty)
    (hfresh : ∀ id deadline, prepared.get id = some deadline → id < p.cluster.next_object_id) :
    Holds (put_leases t prepared) { p with prepared } := by
  refine foldl_entries (Q := fun m t' => Holds t' { p with prepared := m })
    (fun m t' id deadline hid _ hlease hQ => ?_) ?_
  · have hprepared : t'.prepared = m := congrArg Primary.prepared hQ.primary
    have hlt : id < t'.next_object_id := by
      rw [show t'.next_object_id = p.cluster.next_object_id from
        congrArg (·.cluster.next_object_id) hQ.primary]
      exact hfresh id deadline hlease
    refine ⟨hQ.wf.put_prepared (hprepared ▸ hid) hlt deadline, ?_⟩
    show { t'.primary with prepared := t'.prepared.insert id deadline } = _
    rw [hQ.primary, hprepared]
  · rw [← hempty]; exact h

def put_set_objects (t : MetadataState) (objects : OrdMap ℕ StreamSetObjectRow) : MetadataState :=
  objects.entries.foldl (fun t e => t.put_stream_set_object e.2) t

theorem put_set_objects_holds {objects : OrdMap ℕ StreamSetObjectRow} (h : Holds t p)
    (hempty : p.stream_set_objects = .empty)
    (hkeyed : ∀ id row, objects.get id = some row → row.object.object_id = id)
    (hfresh : ∀ id row, objects.get id = some row →
      ∀ slice ∈ row.slices, slice.1.stream_id < p.cluster.next_stream_id) :
    Holds (put_set_objects t objects) { p with stream_set_objects := objects } := by
  refine foldl_entries (Q := fun m t' => Holds t' { p with stream_set_objects := m })
    (fun m t' id row hid _ hrow hQ => ?_) ?_
  · have hslices : ∀ slice ∈ row.slices, slice.1.stream_id < t'.next_stream_id := by
      rw [hQ.next_stream_id]
      exact hfresh id row hrow
    refine ⟨hQ.wf.put_stream_set_object hslices, ?_⟩
    have hobjects : t'.stream_set_objects = m := congrArg Primary.stream_set_objects hQ.primary
    have hcontrol : (t'.put_stream_set_object row).toStreamTables.control =
        t'.toStreamTables.control := funext fun sid => control_put_stream_set_object row sid
    obtain ⟨h1, h2, h3, h4, h5, -⟩ := put_stream_set_object_frame (s := t') row
    have hput : (t'.put_stream_set_object row).primary =
        { t'.primary with stream_set_objects := t'.stream_set_objects.insert id row } := by
      rw [MetadataState.primary, hcontrol, h1, h2, h3, h4, h5, put_stream_set_object_objects,
        hkeyed id row hrow]
      rfl
    rw [hput, hQ.primary, hobjects]
  · rw [← hempty]; exact h

def put_stream_objects (t : MetadataState) (objects : OrdMap StreamOffsetKey StreamObjectRow) :
    MetadataState :=
  objects.entries.foldl (fun t e => t.put_stream_object e.2) t

theorem put_stream_objects_holds {objects : OrdMap StreamOffsetKey StreamObjectRow}
    (h : Holds t p) (hempty : p.stream_objects = .empty)
    (hkeyed : ∀ key row, objects.get key = some row → row.key = key)
    (hdistinct : ∀ key row key' row', objects.get key = some row → objects.get key' = some row' →
      key.object_id = key'.object_id → key = key')
    (hfresh : ∀ key row, objects.get key = some row → key.stream_id < p.cluster.next_stream_id) :
    Holds (put_stream_objects t objects) { p with stream_objects := objects } := by
  refine foldl_entries (Q := fun m t' => Holds t' { p with stream_objects := m })
    (fun m t' key row hkey hsub hrow hQ => ?_) ?_
  · have hobjects : t'.stream_objects = m := congrArg Primary.stream_objects hQ.primary
    have hlt := hfresh key row hrow
    obtain rfl : row.key = key := hkeyed key row hrow
    have hstream : row.range.stream_id < t'.next_stream_id := by
      rw [hQ.next_stream_id]
      exact hlt
    refine ⟨hQ.wf.put_stream_object hstream, ?_⟩
    -- no object put back so far has the id of this one, so nothing is removed
    have hid : t'.stream_object_ids.get row.object.object_id = none := by
      by_contra hne
      obtain ⟨key', hkey'⟩ := ne_none_iff_exists'.1 hne
      obtain ⟨hsame, row', hrow'⟩ := (hQ.wf.objects.ids _ key').1 hkey'
      rw [hobjects] at hrow'
      have heq := hdistinct row.key row key' row' hrow (hsub key' row' hrow') hsame.symm
      rw [← heq, hkey] at hrow'
      cases hrow'
    have hinsert : (t'.put_stream_object row).stream_objects = m.insert row.key row := by
      refine OrdMap.ext fun key' => ?_
      rw [get_put_stream_object, hid, get_insert, hobjects]
      simp
    have hcontrol : (t'.put_stream_object row).toStreamTables.control =
        t'.toStreamTables.control := funext fun sid => control_put_stream_object row sid
    obtain ⟨h1, h2, h3, h4, h5, -⟩ := put_stream_object_frame (s := t') row
    have hput : (t'.put_stream_object row).primary =
        { t'.primary with stream_objects := m.insert row.key row } := by
      rw [MetadataState.primary, hcontrol, h1, h2, h3, h4, h5, hinsert]
      rfl
    rw [hput, hQ.primary]
  · rw [← hempty]; exact h

/-- The queue is put back before its counter is set. -/
def put_marks (t : MetadataState) (marks : OrdMap ℕ (ℕ × CompactOperations)) : MetadataState :=
  marks.entries.foldl (fun t e => t.put_destroyed e.1 e.2.1 e.2.2) t

theorem put_marks_holds {marks : OrdMap ℕ (ℕ × CompactOperations)} {next : ℕ} (h : Holds t p)
    (hempty : p.mark_destroyed = .empty)
    (hdistinct : ∀ seq e seq' e', marks.get seq = some e → marks.get seq' = some e' →
      e.1 = e'.1 → seq = seq')
    (hfresh : ∀ seq e, marks.get seq = some e → seq < next) :
    Holds { put_marks t marks with next_destroyed_seq := next }
      { p with mark_destroyed := marks, next_destroyed_seq := next } := by
  -- the invariant needs the counter from the start, which the loop does not read
  refine foldl_entries
    (Q := fun m (t' : MetadataState) => Holds { t' with next_destroyed_seq := next }
      { p with mark_destroyed := m, next_destroyed_seq := next })
    (fun m t' seq e hseq hsub he hQ => ?_) ?_
  · have hmarks : t'.mark_destroyed = m := congrArg Primary.mark_destroyed hQ.primary
    have hid : t'.destroyed_by_id.get e.1 = none := by
      by_contra hne
      obtain ⟨seq', hseq'⟩ := ne_none_iff_exists'.1 hne
      obtain ⟨op, hop⟩ := (hQ.wf.destroyed.inverse e.1 seq').1 hseq'
      rw [show t'.mark_destroyed = m from hmarks] at hop
      have heq := hdistinct seq e seq' (e.1, op) he (hsub seq' _ hop) rfl
      rw [← heq, hseq] at hop
      cases hop
    have hindexed := hQ.wf.destroyed.put_destroyed (.inr ⟨hid, hmarks ▸ hseq⟩) (hfresh seq e he) e.2
    refine ⟨{ hQ.wf with destroyed := hindexed }, ?_⟩
    show { MetadataState.primary { t' with next_destroyed_seq := next } with
      mark_destroyed := t'.mark_destroyed.insert seq (e.1, e.2) } = _
    rw [hQ.primary, hmarks]
  · have hnone : t.mark_destroyed = .empty := (congrArg Primary.mark_destroyed h.primary).trans hempty
    refine ⟨{ h.wf with destroyed := ⟨h.wf.destroyed.inverse, fun seq e he => ?_⟩ }, ?_⟩
    · rw [show t.mark_destroyed = _ from hnone] at he
      cases he
    · rw [← hempty, ← h.primary]
      rfl

def put_kvs (t : MetadataState) (kv : OrdMap String Bytes) : MetadataState :=
  kv.entries.foldl (fun t e => t.put_kv e.1 e.2) t

theorem put_kv_primary (t : MetadataState) (key : String) (value : Bytes) :
    (t.put_kv key value).primary = { t.primary with kv := t.kv.insert key value } := by
  unfold MetadataState.put_kv
  cases t.kv.get key with
  | none => rfl
  | some old => rfl

theorem put_kvs_holds (kv : OrdMap String Bytes) (h : Holds t p) (hempty : p.kv = .empty) :
    Holds (put_kvs t kv) { p with kv } := by
  refine foldl_entries (Q := fun m t' => Holds t' { p with kv := m })
    (fun m t' key value _ _ _ hQ => ?_) ?_
  · have hkv : t'.kv = m := congrArg Primary.kv hQ.primary
    refine ⟨hQ.wf.put_kv key value, ?_⟩
    rw [put_kv_primary, hQ.primary, hkv]
  · rw [← hempty]; exact h

def put_nodes (t : MetadataState) (nodes : OrdMap ℤ NodeRow) : MetadataState :=
  nodes.entries.foldl (fun t e => { t with nodes := t.nodes.insert e.2.node_id e.2 }) t

theorem put_nodes_eq {nodes : OrdMap ℤ NodeRow} (hempty : t.nodes = .empty)
    (hkeyed : ∀ id node, nodes.get id = some node → node.node_id = id) :
    put_nodes t nodes = { t with nodes } := by
  refine foldl_entries (Q := fun m t' => t' = { t with nodes := m })
    (fun m t' id node _ _ hnode hQ => ?_) ?_
  · rw [hQ, hkeyed id node hnode]
  · rw [← hempty]

def put_transfers (t : MetadataState) (transfers : OrdMap ℕ PendingTransfer) : MetadataState :=
  transfers.entries.foldl
    (fun t e => { t with pending_transfers := t.pending_transfers.insert e.1 e.2 }) t

theorem put_transfers_eq (transfers : OrdMap ℕ PendingTransfer)
    (hempty : t.pending_transfers = .empty) :
    put_transfers t transfers = { t with pending_transfers := transfers } := by
  refine foldl_entries (Q := fun m t' => t' = { t with pending_transfers := m })
    (fun m t' id pending _ _ _ hQ => ?_) ?_
  · rw [hQ]
  · rw [← hempty]

def put_epochs (t : MetadataState) (epochs : OrdMap (ℕ ×ₗ ℤ) ℕ) : MetadataState :=
  epochs.entries.foldl (fun t e => { t with epochs := t.epochs.insert e.1 e.2 }) t

theorem put_epochs_eq (epochs : OrdMap (ℕ ×ₗ ℤ) ℕ) (hempty : t.epochs = .empty) :
    put_epochs t epochs = { t with epochs } := by
  refine foldl_entries (Q := fun m t' => t' = { t with epochs := m })
    (fun m t' key start _ _ _ hQ => ?_) ?_
  · rw [hQ]
  · rw [← hempty]

/-! ## The whole state -/

def put_counters (t s : MetadataState) : MetadataState :=
  { t with next_producer_id := s.next_producer_id, next_object_id := s.next_object_id }

/-- The loops of the restoration one after the other, in the order of the snapshot. -/
def restore (s : MetadataState) : MetadataState :=
  let t := put_streams { next_stream_id := s.next_stream_id } s.streams
  let t := put_leases (put_counters (put_nodes t s.nodes) s) s.prepared
  let t := put_marks (put_stream_objects (put_set_objects t s.stream_set_objects) s.stream_objects)
    s.mark_destroyed
  let t := put_kvs { t with next_destroyed_seq := s.next_destroyed_seq } s.kv
  put_epochs (put_transfers t s.pending_transfers) s.epochs

/-- The cluster tables before transfers and epochs are put back. -/
def early_cluster (s : MetadataState) : ClusterTables where
  next_stream_id := s.next_stream_id
  nodes := s.nodes
  next_producer_id := s.next_producer_id
  next_object_id := s.next_object_id

theorem put_early_eq (hcluster : t.toClusterTables = { next_stream_id := s.next_stream_id })
    (hkeyed : ∀ id node, s.nodes.get id = some node → node.node_id = id) :
    put_counters (put_nodes t s.nodes) s = { t with toClusterTables := early_cluster s } := by
  have hnodes := put_nodes_eq (congrArg ClusterTables.nodes hcluster) hkeyed
  rw [hnodes]
  show { t with
    toClusterTables := { t.toClusterTables with
      nodes := s.nodes
      next_producer_id := s.next_producer_id
      next_object_id := s.next_object_id } } = _
  rw [hcluster]
  rfl

theorem put_rest_eq (hcluster : t.toClusterTables = early_cluster s) :
    put_epochs (put_transfers t s.pending_transfers) s.epochs =
      { t with toClusterTables := s.toClusterTables } := by
  have htransfers := put_transfers_eq s.pending_transfers
    (congrArg ClusterTables.pending_transfers hcluster)
  have hepochs : put_epochs { t with pending_transfers := s.pending_transfers } s.epochs = _ :=
    put_epochs_eq s.epochs (congrArg ClusterTables.epochs hcluster)
  rw [htransfers, hepochs]
  show { t with
    toClusterTables := { t.toClusterTables with
      pending_transfers := s.pending_transfers, epochs := s.epochs } } = _
  rw [hcluster]
  rfl

/-- Putting the rows of a well-formed state back gives the state. -/
theorem restore_eq (h : s.Wf)
    (hnodes : ∀ id node, s.nodes.get id = some node → node.node_id = id) : restore s = s := by
  have hd := derived_of_wf h
  have hqueue : ∀ seq e seq' e', s.mark_destroyed.get seq = some e →
      s.mark_destroyed.get seq' = some e' → e.1 = e'.1 → seq = seq' := by
    intro seq e seq' e' he he' hid
    have h1 := (h.destroyed.inverse e.1 seq).2 ⟨e.2, he⟩
    have h2 := (h.destroyed.inverse e'.1 seq').2 ⟨e'.2, he'⟩
    rw [hid, h2] at h1
    exact (some.inj h1).symm
  have hstreams := put_streams_holds (holds_start s.next_stream_id) rfl rfl rfl h.streams.keyed
    h.fresh_streams
  have hearly := put_early_eq (congrArg Primary.cluster hstreams.primary) hnodes
  have hcounters := hstreams.set_counters (early_cluster s) hstreams.next_stream_id.symm rfl
  have hleases := put_leases_holds hcounters rfl h.fresh_leases
  have hsets := put_set_objects_holds hleases rfl h.objects.set_keyed h.fresh_slices
  have hobjects := put_stream_objects_holds hsets rfl h.objects.keyed hd.object_ids_distinct
    h.fresh_objects
  have hmarks := put_marks_holds hobjects rfl hqueue h.destroyed.seqs
  have hkvs := put_kvs_holds s.kv hmarks rfl
  have hcluster := congrArg Primary.cluster hkvs.primary
  have hwhole := hkvs.set_cluster s.toClusterTables hkvs.next_stream_id.symm
    (congrArg ClusterTables.next_object_id hcluster).symm
  rw [restore, hearly, put_rest_eq hcluster]
  exact hwhole.eq h

end PicoMq.Metadata
