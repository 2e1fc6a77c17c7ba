import PicoMq.Library.Proofs.WireProofs
import PicoMq.Topics.Topic

/-!
# Proofs: the record of a topic

What is read back from a record, up to the field that says whether the topic is closed, is what was
written.
-/

namespace PicoMq.Topics

open Wire Wire.Reader

/-! ## Fields -/

theorem reads_u8 (n : UInt8) : Reads get_u8 (put_u8 n) n := by
  have hword : IsUnsigned (8 * 1) n.toNat := n.toNat_lt
  have hread : Reads get_u8 (put_u8 n) (UInt8.ofNat n.toNat) := (reads_be_word hword).last
  rwa [UInt8.ofNat_toNat] at hread

theorem reads_u32 (n : UInt32) : Reads get_u32 (put_u32 n) n := by
  have hword : IsUnsigned (8 * 4) n.toNat := n.toNat_lt
  have hread : Reads get_u32 (put_u32 n) (UInt32.ofNat n.toNat) := (reads_be_word hword).last
  rwa [UInt32.ofNat_toNat] at hread

theorem reads_u64 (n : UInt64) : Reads get_u64 (put_u64 n) n := by
  have hword : IsUnsigned (8 * 8) n.toNat := n.toNat_lt
  have hread : Reads get_u64 (put_u64 n) (UInt64.ofNat n.toNat) := (reads_be_word hword).last
  rwa [UInt64.ofNat_toNat] at hread

theorem reads_i64 (x : Int64) : Reads get_i64 (put_i64 x) x := by
  have hread : Reads get_i64 (put_i64 x) x.toUInt64.toInt64 := (reads_u64 x.toUInt64).last
  rwa [Int64.toInt64_toUInt64] at hread

theorem reads_opt_i64 (value : Option Int64) : Reads get_opt_i64 (put_opt_i64 value) value := by
  cases value with
  | none => exact (reads_u8 0).bind (reads_i64 0).last
  | some x => exact (reads_u8 1).bind (reads_i64 x).last

theorem reads_version (expected : UInt8) (what : String) :
    Reads (expect_version expected what) (put_u8 expected) () := by
  refine (reads_u8 expected).bind_nil ?_
  rw [if_neg (not_not.2 rfl)]
  exact Reads.pure

theorem to_signed_of_lt {n : ℕ} (h : n < 2 ^ 31) : to_signed 31 n = n :=
  bmod_of_isSigned ⟨by omega, by omega⟩

theorem reads_i32 {n : ℕ} (h : n < 2 ^ 32) : Reads get_i32 (be_bytes 4 n) (to_signed 31 n) :=
  have hword : IsUnsigned (8 * 4) n := h
  (reads_be_word hword).last

theorem reads_str {value : String} (h : value.utf8ByteSize < 2 ^ 31) :
    Reads get_str (put_str value) value := by
  refine (reads_i32 (by omega)).bind ?_
  rw [to_signed_of_lt h, take_str, if_neg (by omega), Int.toNat_natCast,
    ← List.append_nil (utf8 value)]
  refine (Reads.take (length_utf8 value)).bind ?_
  rw [of_utf8_utf8]
  exact Reads.pure

theorem yields_str : get_str.Yields fun value => value.utf8ByteSize < 2 ^ 31 := by
  refine .bind_of (P := IsSigned 31) (.bind fun n => .pure (isSigned_to_signed 31 n)) ?_
  intro len hlen
  have hlt : len.toNat < 2 ^ 31 := by
    unfold IsSigned at hlen
    omega
  unfold take_str
  split
  · exact .fail _
  · refine (yields_take _ _).bind_of fun bytes hbytes => ?_
    cases hs : of_utf8 bytes with
    | none => exact .fail _
    | some value =>
      refine .pure ?_
      rwa [length_of_of_utf8 hs, hbytes]

theorem get_str_of_neg {len : ℤ} {bytes rest : List UInt8} (hneg : len < 0)
    (hread : Reads get_i32 bytes len) :
    get_str.run (bytes ++ rest) = .error (corrupt "negative length") := by
  have htake : take_str len = Reader.fail (corrupt "negative length") := by
    rw [take_str, if_pos hneg]
  rw [get_str, run_bind, hread]
  show (take_str len).run _ = _
  rw [htake, run_fail]

theorem get_str_of_eq {value : String} {rest : List UInt8} (h : value.utf8ByteSize = 2 ^ 31) :
    get_str.run (put_str value ++ rest) = .error (corrupt "negative length") := by
  have hneg : to_signed 31 value.utf8ByteSize < 0 := by
    rw [h]
    decide
  rw [put_str, List.append_assoc]
  exact get_str_of_neg hneg (reads_i32 (by omega))

/-! ## Names -/

theorem parse_spelling {spelling : String} {name : TopicName}
    (h : TopicName.parse spelling = .ok name) :
    TopicName.parse name.spelling = .ok name ∧
      name.spelling.utf8ByteSize ≤ spelling.utf8ByteSize + 1 := by
  have hslash : ("/" ++ spelling).toList.head? = some '/' := by simp
  have hsize : ("/" ++ spelling).utf8ByteSize = spelling.utf8ByteSize + 1 := by
    rw [String.utf8ByteSize_append, Nat.add_comm]
    rfl
  by_cases hhead : spelling.toList.head? = some '/'
  · have hspelling : name.spelling = spelling := by
      unfold TopicName.parse at h
      simp only [if_pos hhead] at h
      split at h
      · cases h
      · split at h
        · cases h
        · cases h
          rfl
    rw [hspelling]
    exact ⟨h, Nat.le_succ _⟩
  · have hspelling : name.spelling = "/" ++ spelling ∧
        TopicName.parse ("/" ++ spelling) = TopicName.parse spelling := by
      unfold TopicName.parse at h ⊢
      simp only [if_neg hhead, if_pos hslash] at h ⊢
      split at h
      · cases h
      · split at h
        · cases h
        · cases h
          exact ⟨rfl, trivial⟩
    rw [hspelling.1, hspelling.2, hsize]
    exact ⟨h, le_rfl⟩

namespace Topic

variable {t later : Topic}

structure Readable (t : Topic) : Prop where
  name : TopicName.parse t.name.spelling = .ok t.name
  spelling : t.name.spelling.utf8ByteSize ≤ 2 ^ 31
  content_type : t.content_type.utf8ByteSize < 2 ^ 31

theorem yields_name : get_name.Yields fun name =>
    TopicName.parse name.spelling = .ok name ∧ name.spelling.utf8ByteSize ≤ 2 ^ 31 := by
  refine yields_str.bind_of fun spelling hspelling => ?_
  cases hname : TopicName.parse spelling with
  | error error => exact .fail _
  | ok name =>
    obtain ⟨hparse, hle⟩ := parse_spelling hname
    exact .pure ⟨hparse, by omega⟩

theorem yields_readable : reader.Yields Readable := by
  refine .bind fun _ => .bind fun _ => yields_name.bind_of fun name hname => ?_
  refine .bind fun _ => yields_str.bind_of fun content_type hcontent => ?_
  refine .bind fun _ => .bind fun _ => .bind fun _ => .bind fun _ => .bind fun _ => ?_
  exact .bind fun _ => .bind fun _ => .pure ⟨hname.1, hname.2, hcontent⟩

theorem str_of_run_name {α : Type} {f : TopicName → Reader ServiceError α} {bytes : List UInt8}
    {result : α × List UInt8} {e : ServiceError} (h : (get_name >>= f).run bytes = .ok result) :
    get_str.run bytes ≠ .error e := by
  intro hfail
  rw [run_bind, get_name, run_bind, hfail] at h
  cases h

theorem run_name {α : Type} {f : TopicName → Reader ServiceError α} {name : TopicName}
    {rest : List UInt8} {result : α × List UInt8} (hname : TopicName.parse name.spelling = .ok name)
    (hsize : name.spelling.utf8ByteSize ≤ 2 ^ 31)
    (h : (get_name >>= f).run (put_str name.spelling ++ rest) = .ok result) :
    (f name).run rest = .ok result := by
  rcases Nat.lt_or_eq_of_le hsize with hlt | heq
  · have hread : Reads get_name (put_str name.spelling) name := by
      refine (reads_str hlt).bind_nil ?_
      rw [hname]
      exact Reads.pure
    exact hread.after h
  · exact absurd (get_str_of_eq heq) (str_of_run_name h)

theorem decode_encode_id (h : decode t.encode = .ok later) : later.id = t.id := by
  have hrun := decode_eq_ok_iff.1 h
  have hid : IsUnsigned (8 * 16) t.id.toNat := t.id.isLt
  rw [encode, reader] at hrun
  replace hrun := (reads_version VERSION "topic").after hrun
  replace hrun := (reads_be_word hid).after hrun
  refine Yields.bind (P := fun later : Topic => later.id = t.id) ?_ _ _ _ hrun
  refine fun _ => .bind fun _ => .bind fun _ => .bind fun _ => .bind fun _ => .bind fun _ => ?_
  exact .bind fun _ => .bind fun _ => .bind fun _ => .bind fun _ => .pure (BitVec.ofNat_toNat ..)

theorem decode_encode (ht : t.Readable) (h : decode t.encode = .ok later) :
    later.id = t.id ∧ later.partitions = t.partitions ∧ later.closed = t.closed := by
  have hrun := decode_eq_ok_iff.1 h
  have hid : IsUnsigned (8 * 16) t.id.toNat := t.id.isLt
  rw [encode, reader] at hrun
  replace hrun := (reads_version VERSION "topic").after hrun
  replace hrun := (reads_be_word hid).after hrun
  replace hrun := run_name ht.name ht.spelling hrun
  replace hrun := (reads_u32 t.partitions).after hrun
  replace hrun := (reads_str ht.content_type).after hrun
  replace hrun := (reads_opt_i64 _).after hrun
  replace hrun := (reads_opt_i64 _).after hrun
  replace hrun := (reads_i64 _).after hrun
  replace hrun := (reads_u8 _).after hrun
  have hclosed : decide ((if t.closed then 1 else 0 : UInt8) = 1) = t.closed := by
    cases t.closed with
    | false => rfl
    | true => rfl
  refine Yields.bind (P := fun later : Topic => later.id = t.id ∧
    later.partitions = t.partitions ∧ later.closed = t.closed) ?_ _ _ _ hrun
  exact fun _ => .bind fun _ => .bind fun _ => .pure ⟨BitVec.ofNat_toNat .., rfl, hclosed⟩

/-! ## Changes -/

theorem touched_eq (t : Topic) (now_ms : Int64) :
    ∃ deadline_ms, t.touched now_ms = { t with deadline_ms } := by
  unfold touched
  split
  · exact ⟨t.deadline_ms, rfl⟩
  · split
    · exact ⟨t.deadline_ms, rfl⟩
    · dsimp only
      split
      · exact ⟨t.deadline_ms, rfl⟩
      · exact ⟨_, rfl⟩

structure Extends (t t' : Topic) : Prop where
  id : t'.id = t.id
  name : t'.name = t.name
  content_type : t'.content_type = t.content_type
  partitions : t.partitions ≤ t'.partitions
  closed : t.closed → t'.closed

theorem extends_change (change : Change) (now_ms : Int64) (t : Topic) :
    t.Extends (change.apply now_ms t) := by
  cases change with
  | seal_topic closed_by =>
    obtain ⟨deadline_ms, heq⟩ := touched_eq { t with
      closed := true
      closed_by := if closed_by.isSome then closed_by else t.closed_by } now_ms
    unfold Change.apply
    dsimp only
    rw [heq]
    exact ⟨rfl, rfl, rfl, UInt32.le_refl _, fun _ => rfl⟩
  | touch =>
    obtain ⟨deadline_ms, heq⟩ := touched_eq t now_ms
    unfold Change.apply
    dsimp only
    rw [heq]
    exact ⟨rfl, rfl, rfl, UInt32.le_refl _, fun h => h⟩
  | update command =>
    refine ⟨rfl, rfl, rfl, ?_, fun h => h⟩
    unfold Change.apply UpdateTopicCommand.apply
    dsimp only
    cases command.partitions with
    | none => exact UInt32.le_refl _
    | some partitions =>
      show t.partitions ≤ if t.partitions ≤ partitions then partitions else t.partitions
      split
      · assumption
      · exact UInt32.le_refl _

theorem decode_change {stored : List UInt8} {change : Change} {now_ms : Int64}
    (h : decode stored = .ok t) (h' : decode (change.apply now_ms t).encode = .ok later) :
    later.id = t.id ∧ t.partitions ≤ later.partitions ∧ (t.closed → later.closed) := by
  have hreadable := yields_readable _ _ _ (decode_eq_ok_iff.1 h)
  obtain ⟨hid, hname, hcontent, hpartitions, hclosed⟩ := extends_change change now_ms t
  have hchanged : (change.apply now_ms t).Readable := by
    refine ⟨?_, ?_, ?_⟩
    · rw [hname]
      exact hreadable.name
    · rw [hname]
      exact hreadable.spelling
    · rw [hcontent]
      exact hreadable.content_type
  obtain ⟨hid', hpartitions', hclosed'⟩ := decode_encode hchanged h'
  rw [hid', hpartitions', hclosed']
  exact ⟨hid, hpartitions, hclosed⟩

end Topic

end PicoMq.Topics
