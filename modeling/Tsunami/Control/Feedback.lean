import Tsunami.Control.Client
import Tsunami.Control.Server

/-!
# The server's reads during a transfer

What `client_handler` makes of the feedback: record by record, until a stop
request or the heartbeat timeout. Its own loss report hides a stop request of
which it has read two bytes or more.
-/

namespace Tsunami.Control.Server

open Bytes Duplex

variable {sp : Parameter} {sc : Nat → Call} {n start j : Nat} {f : Feedback} {ty : UInt8}
  {i : List (Field × UInt8)} {t : List (Field × Field)}

-- ---------------------------------------------------------------------------
-- One byte
-- ---------------------------------------------------------------------------

theorem does_open :
    Does (clientHandler sp sc) ⟨.goto (.open n), i, t⟩
      ⟨ttpOpenTransfer sp (sc n) (.goto (.open (n + 1))) fun cfg =>
        ttpOpenPort (sc n) (.goto (.open (n + 1))) (.goto (.transfer n (.create (sc n) cfg))), i, t⟩
          [] :=
  .single rfl

theorem does_leave (ht : (sc n).timeout = some f.consumed) :
    Does (clientHandler sp sc) ⟨.goto (.transfer n f), i, t⟩ ⟨.goto (.open (n + 1)), i, t⟩ [] :=
  .single (by simp [Party.advance, clientHandler, ht])

theorem does_wait (ht : (sc n).timeout ≠ some f.consumed) :
    Does (clientHandler sp sc) ⟨.goto (.transfer n f), i, t⟩
      ⟨.get .record fun b =>
        if (f.take b).stops then .goto (.open (n + 1))
        else .goto (.transfer n ((f.take b).reported (sc n))), i, t⟩ [] :=
  .single (by simp [Party.advance, clientHandler, ht])

theorem does_byte (sp : Parameter) (ht : (sc n).timeout ≠ some f.consumed) (b : UInt8) :
    Does (clientHandler sp sc) ⟨.goto (.transfer n f), (.record, b) :: i, t⟩
      ⟨if (f.take b).stops then .goto (.open (n + 1))
        else .goto (.transfer n ((f.take b).reported (sc n))), i, t⟩ [] :=
  (does_wait ht).trans (does_get Field.record _)

-- ---------------------------------------------------------------------------
-- The type of a record that is there in part
-- ---------------------------------------------------------------------------

/-- A loss is reported when 2 to `j` bytes of the record are there. -/
def Spoiled (c : Call) (start j : Nat) : Prop :=
  ∃ k, k < j + 1 ∧ 2 ≤ k ∧ c.report (start + k) = true

instance (c : Call) (start j : Nat) : Decidable (Spoiled c start j) :=
  inferInstanceAs (Decidable (∃ k, k < j + 1 ∧ 2 ≤ k ∧ c.report (start + k) = true))

/-- `j` bytes of a record of type `ty` are there, which starts after `start`
bytes of feedback. -/
structure Inside (c : Call) (start : Nat) (ty : UInt8) (j : Nat) (f : Feedback) : Prop where
  length : f.retransmission.length = sizeofRetransmission
  len : f.retransmitlen = j
  consumed : f.consumed = start + j
  first : 1 ≤ j → f.retransmission.take 1 = [0]
  type : 2 ≤ j → ¬ Spoiled c start j → f.retransmission.take 2 = [0, ty]
  spoiled : 2 ≤ j → Spoiled c start j → f.retransmission.take 2 = [0, 3]

theorem spoiled_succ {c : Call} (hj : 1 ≤ j) :
    Spoiled c start (j + 1) ↔ Spoiled c start j ∨ c.report (start + (j + 1)) = true := by
  constructor
  · rintro ⟨k, hk, h2, hr⟩
    rcases Nat.lt_succ_iff_lt_or_eq.mp hk with hk | rfl
    · exact .inl ⟨k, hk, h2, hr⟩
    · exact .inr hr
  · rintro (⟨k, hk, h2, hr⟩ | hr)
    · exact ⟨k, Nat.lt_succ_of_lt hk, h2, hr⟩
    · exact ⟨j + 1, Nat.lt_succ_self _, Nat.succ_le_succ hj, hr⟩

theorem not_spoiled_one {c : Call} : ¬ Spoiled c start 1 := by
  rintro ⟨k, hk, h2, -⟩
  omega

theorem reported_take_two {c : Call} (hr : c.report f.consumed = true) :
    (f.reported c).retransmission.take 2 = [0, 3] := by
  simp only [Feedback.reported, hr, ↓reduceIte, Tsunami.Server.lossRecord, List.append_assoc]
  rfl

@[simp] theorem reported_consumed (c : Call) (f : Feedback) :
    (f.reported c).consumed = f.consumed := by
  unfold Feedback.reported
  split <;> rfl

@[simp] theorem reported_retransmitlen (c : Call) (f : Feedback) :
    (f.reported c).retransmitlen = f.retransmitlen := by
  unfold Feedback.reported
  split <;> rfl

theorem reported_length (c : Call) (hl : f.retransmission.length = sizeofRetransmission) :
    (f.reported c).retransmission.length = sizeofRetransmission := by
  unfold Feedback.reported
  split
  · exact Tsunami.Server.length_lossRecord f.cfg hl
  · exact hl

theorem reported_of_not {c : Call} (hr : ¬ c.report f.consumed = true) : f.reported c = f := by
  simp [Feedback.reported, hr]

theorem take_length (h : f.retransmission.length = sizeofRetransmission) (hj : f.retransmitlen < 12)
    (b : UInt8) : (f.take b).retransmission.length = sizeofRetransmission := by
  rw [Feedback.take, length_blit, h]
  rw [List.length_singleton, h]
  exact hj

theorem take_stays (h : f.retransmission.length = sizeofRetransmission) (hj : f.retransmitlen < 12)
    (hk : k ≤ f.retransmitlen) (b : UInt8) :
    (f.take b).retransmission.take k = f.retransmission.take k :=
  take_blit hk (by rw [h]; exact Nat.le_of_lt hj)

theorem take_grows (h : f.retransmission.length = sizeofRetransmission) (hj : f.retransmitlen < 12)
    (b : UInt8) :
    (f.take b).retransmission.take (f.retransmitlen + 1) =
      f.retransmission.take f.retransmitlen ++ [b] :=
  show (blit f.retransmission f.retransmitlen [b]).take (f.retransmitlen + [b].length) = _ from
    take_blit_append (by rw [h]; exact Nat.le_of_lt hj)

theorem Inside.next {c : Call} (h : Inside c start ty j f) (hj : j < 11)
    (hb₀ : j = 0 → b = 0) (hb₁ : j = 1 → b = ty) :
    (f.take b).stops = false ∧ Inside c start ty (j + 1) ((f.take b).reported c) := by
  have hl : f.retransmitlen < 12 := by have := h.len; omega
  have hlen : (f.take b).retransmitlen = j + 1 := by
    simp only [Feedback.take, h.len, sizeofRetransmission]
    omega
  have hcons : (f.take b).consumed = start + (j + 1) := by
    rw [← Nat.add_assoc, ← h.consumed]
    rfl
  have hgrows := take_grows h.length hl b
  have hstays : ∀ k ≤ j, (f.take b).retransmission.take k = f.retransmission.take k :=
    fun k hk => take_stays h.length hl (h.len ▸ hk) b
  rw [h.len] at hgrows
  refine ⟨by simp [Feedback.stops, hlen],
    reported_length c (take_length h.length hl b), by simp [hlen], by simp [hcons], ?_, ?_, ?_⟩
  · intro _
    by_cases hr : c.report (f.take b).consumed = true
    · have htwo := congrArg (List.take 1) (reported_take_two hr)
      rwa [List.take_take] at htwo
    · rw [reported_of_not hr]
      rcases Nat.eq_zero_or_pos j with rfl | hpos
      · rw [hgrows, hb₀ rfl]
        rfl
      · rw [hstays 1 hpos, h.first hpos]
  · intro h2 hsp
    have hpos : 1 ≤ j := Nat.le_of_succ_le_succ h2
    rw [spoiled_succ hpos, not_or, ← hcons] at hsp
    rw [reported_of_not hsp.2]
    rcases Nat.lt_or_eq_of_le hpos with h2 | rfl
    · rw [hstays 2 h2, h.type h2 hsp.1]
    · rw [hgrows, h.first (Nat.le_refl 1), hb₁ rfl]
      rfl
  · intro h2 hsp
    have hpos : 1 ≤ j := Nat.le_of_succ_le_succ h2
    rw [spoiled_succ hpos, ← hcons] at hsp
    by_cases hr : c.report (f.take b).consumed = true
    · exact reported_take_two hr
    · have hold := hsp.resolve_right hr
      rw [reported_of_not hr]
      rcases Nat.lt_or_eq_of_le hpos with h2 | rfl
      · rw [hstays 2 h2, h.spoiled h2 hold]
      · exact absurd hold not_spoiled_one

theorem Inside.last {c : Call} (h : Inside c start ty 11 f) (b : UInt8) :
    (f.take b).retransmitlen = 0 ∧ (f.take b).consumed = start + 12 ∧
      ((f.take b).stops = true ↔ ¬ Spoiled c start 11 ∧ ty = 2) := by
  have hl : f.retransmitlen < 12 := by have := h.len; omega
  have hlen : (f.take b).retransmitlen = 0 := by
    simp only [Feedback.take, h.len]
    rfl
  have hcons : (f.take b).consumed = start + 12 := by
    have := h.consumed
    show f.consumed + 1 = start + 12
    omega
  have hstays : (f.take b).retransmission.take 2 = f.retransmission.take 2 :=
    take_stays h.length hl (by rw [h.len]; decide) b
  refine ⟨hlen, hcons, ?_⟩
  simp only [Feedback.stops, hlen, Retransmission.decode, hstays, true_and, decide_eq_true_eq]
  by_cases hsp : Spoiled c start 11
  · rw [h.spoiled (by decide) hsp]
    simp [hsp, ofBe, requestStop]
  · rw [h.type (by decide) hsp]
    simp only [hsp, not_false_eq_true, true_and]
    have hval : ofBe [0, ty] = ty.toNat := by simp [ofBe]
    rw [hval, ← UInt8.toNat_inj]
    rfl

-- ---------------------------------------------------------------------------
-- Whole records
-- ---------------------------------------------------------------------------

structure Between (k : Nat) (f : Feedback) : Prop where
  length : f.retransmission.length = sizeofRetransmission
  len : f.retransmitlen = 0
  consumed : f.consumed = k

theorem Between.inside (h : Between start f) (c : Call) (ty : UInt8) : Inside c start ty 0 f where
  length := h.length
  len := h.len
  consumed := h.consumed
  first := fun hlt => absurd hlt (by decide)
  type := fun hlt => absurd hlt (by decide)
  spoiled := fun hlt => absurd hlt (by decide)

/-- The heartbeat does not time out before `k` bytes of feedback are read. -/
def Call.Waits (c : Call) (k : Nat) : Prop := ∀ m, c.timeout = some m → k ≤ m

theorem Call.Waits.mono {c : Call} (h : c.Waits k) (hm : m ≤ k) : c.Waits m :=
  fun _ ht => Nat.le_trans hm (h _ ht)

theorem Call.Waits.ne {c : Call} (h : c.Waits k) (hm : m < k) : c.timeout ≠ some m :=
  fun ht => absurd (h m ht) (Nat.not_le_of_lt hm)

variable {r : Retransmission}

theorem encode_first (h : r.requestType < 2 ^ 8) :
    r.encode[0]? = some 0 ∧ r.encode[1]? = some (.ofNat r.requestType) := by
  have hhigh : r.requestType / 256 = 0 := Nat.div_eq_of_lt h
  simp [Retransmission.encode, be16, hhigh]

theorem does_part (hr : r.requestType < 2 ^ 8) (hf : Between start f) (hj : j ≤ 11)
    (hw : (sc n).Waits (start + j)) :
    ∃ f', Inside (sc n) start (.ofNat r.requestType) j f' ∧
      Does (clientHandler sp sc) ⟨.goto (.transfer n f), r.encode.map (.record, ·) ++ i, t⟩
        ⟨.goto (.transfer n f'), (r.encode.drop j).map (.record, ·) ++ i, t⟩ [] := by
  induction j with
  | zero => exact ⟨f, hf.inside .., .refl⟩
  | succ j ih =>
    obtain ⟨f', hin, hdoes⟩ := ih (by omega) (hw.mono (by omega))
    have hlt : j < r.encode.length := by
      rw [Retransmission.length_encode]
      exact Nat.lt_of_lt_of_le hj (by decide)
    obtain ⟨hfirst, hsecond⟩ := encode_first hr
    obtain ⟨hstop, hnext⟩ := hin.next (b := r.encode[j]) hj
      (fun h0 => by
        subst h0
        exact Option.some.inj ((List.getElem?_eq_getElem hlt).symm.trans hfirst))
      (fun h1 => by
        subst h1
        exact Option.some.inj ((List.getElem?_eq_getElem hlt).symm.trans hsecond))
    have hne : (sc n).timeout ≠ some f'.consumed := hw.ne (by have := hin.consumed; omega)
    have hbyte :=
      does_byte sp (i := (r.encode.drop (j + 1)).map (Field.record, ·) ++ i) (t := t) hne
      r.encode[j]
    rw [hstop] at hbyte
    refine ⟨_, hnext, hdoes.trans ?_⟩
    rw [List.drop_eq_getElem_cons hlt]
    exact hbyte

theorem does_record (hr : r.requestType < 2 ^ 8) (hf : Between start f)
    (hw : (sc n).Waits (start + 12)) :
    (¬ Spoiled (sc n) start 11 ∧ r.requestType = requestStop →
      Does (clientHandler sp sc) ⟨.goto (.transfer n f), r.encode.map (.record, ·) ++ i, t⟩
        ⟨.goto (.open (n + 1)), i, t⟩ []) ∧
    (¬ (¬ Spoiled (sc n) start 11 ∧ r.requestType = requestStop) → ∃ f', Between (start + 12) f' ∧
      Does (clientHandler sp sc) ⟨.goto (.transfer n f), r.encode.map (.record, ·) ++ i, t⟩
        ⟨.goto (.transfer n f'), i, t⟩ []) := by
  obtain ⟨f', hin, hdoes⟩ := does_part (i := i) (t := t) hr hf (Nat.le_refl 11)
    (hw.mono (Nat.le_succ _))
  have hlt : 11 < r.encode.length := by
    rw [Retransmission.length_encode]
    decide
  have hdrop : r.encode.drop 11 = [r.encode[11]] := by
    have hend : r.encode.drop (11 + 1) = [] := List.drop_eq_nil_of_le (Nat.le_of_eq r.length_encode)
    rw [List.drop_eq_getElem_cons hlt, hend]
  have hne : (sc n).timeout ≠ some f'.consumed := hw.ne (by have := hin.consumed; omega)
  have hbyte := does_byte sp (i := i) (t := t) hne r.encode[11]
  obtain ⟨hlen, hcons, hstops⟩ := hin.last r.encode[11]
  have htype : (UInt8.ofNat r.requestType = 2) ↔ r.requestType = requestStop := by
    rw [← UInt8.toNat_inj, UInt8.toNat_ofNat', Nat.mod_eq_of_lt hr]
    rfl
  rw [htype] at hstops
  rw [hdrop] at hdoes
  constructor
  · intro h
    rw [hstops.mpr h] at hbyte
    exact hdoes.trans hbyte
  · intro h
    have hno : (f'.take r.encode[11]).stops = false := by
      rw [← Bool.not_eq_true, hstops]
      exact h
    rw [hno] at hbyte
    have hlong := take_length hin.length (by have := hin.len; omega) r.encode[11]
    exact ⟨_, ⟨reported_length _ hlong, by simp [hlen], by simp [hcons]⟩, hdoes.trans hbyte⟩

theorem does_records (hrs : ∀ r ∈ rs, r.requestType < 2 ^ 8 ∧ r.requestType ≠ requestStop)
    (hf : Between start f) (hw : (sc n).Waits (start + 12 * rs.length)) :
    ∃ f', Between (start + 12 * rs.length) f' ∧
      Does (clientHandler sp sc)
        ⟨.goto (.transfer n f), (Tsunami.Server.stream rs).map (.record, ·) ++ i, t⟩
        ⟨.goto (.transfer n f'), i, t⟩ [] := by
  induction rs generalizing f start with
  | nil => exact ⟨f, hf, .refl⟩
  | cons r rs ih =>
    obtain ⟨hty, hns⟩ := hrs r (by simp)
    rw [List.length_cons] at hw ⊢
    obtain ⟨f₁, hf₁, h₁⟩ := (does_record
      (i := (Tsunami.Server.stream rs).map (Field.record, ·) ++ i) (t := t) hty hf
      (hw.mono (by omega))).2 fun h => hns h.2
    obtain ⟨f₂, hf₂, h₂⟩ := ih (fun r hr => hrs r (by simp [hr])) hf₁ (hw.mono (by omega))
    have hsum : start + 12 + 12 * rs.length = start + 12 * (rs.length + 1) := by omega
    refine ⟨f₂, hsum ▸ hf₂, ?_⟩
    have hbytes : (Tsunami.Server.stream (r :: rs)).map (Field.record, ·) ++ i =
        r.encode.map (Field.record, ·) ++
          ((Tsunami.Server.stream rs).map (Field.record, ·) ++ i) := by
      simp [Tsunami.Server.stream]
    rw [hbytes]
    exact h₁.trans h₂

-- ---------------------------------------------------------------------------
-- A whole transfer
-- ---------------------------------------------------------------------------

variable {c : Client.Call}

def Heard (c : Client.Call) (s : Call) : Prop :=
  c.stops = true ∧ ¬ Spoiled s (12 * c.records.length) 11

instance (c : Client.Call) (s : Call) : Decidable (Heard c s) :=
  inferInstanceAs (Decidable (_ ∧ _))

theorem records_not_stop (c : Client.Call) :
    ∀ r ∈ c.records.map Client.Record.record, r.requestType < 2 ^ 8 ∧
    r.requestType ≠ requestStop := by
  intro r hr
  obtain ⟨r, -, rfl⟩ := List.mem_map.mp hr
  exact ⟨r.type_lt, r.notStop⟩

theorem written_type (hr : r ∈ c.written) : r.requestType < 2 ^ 8 := by
  rcases List.mem_append.mp hr with hr | hr
  · exact (records_not_stop c r hr).1
  · split at hr
    · rw [List.mem_singleton.mp hr]
      decide
    · simp at hr

theorem stream_append (rs rs' : List Retransmission) :
    Tsunami.Server.stream (rs ++ rs') = Tsunami.Server.stream rs ++ Tsunami.Server.stream rs' :=
  List.flatMap_append

theorem between_create (s : Call) (cfg : Tsunami.Server.Config) :
    Between 0 (Feedback.create s cfg) :=
  ⟨s.length_retransmission, rfl, rfl⟩

theorem take_written {c : Client.Call} (hq : q < c.written.length) :
    c.written.take q = (c.records.map Client.Record.record).take q := by
  have hlen : c.written.length ≤ c.records.length + 1 := by
    rw [Client.Call.written, List.length_append, List.length_map]
    split <;> simp
  exact List.take_append_of_le_length (by rw [List.length_map]; omega)

theorem stream_cut (rs : List Retransmission) (hq : q < rs.length) :
    (Tsunami.Server.stream rs).map (Field.record, ·) =
      (Tsunami.Server.stream (rs.take q)).map (Field.record, ·) ++
        (rs[q].encode.map (Field.record, ·) ++
          (Tsunami.Server.stream (rs.drop (q + 1))).map (Field.record, ·)) := by
  have hsplit : rs = rs.take q ++ (rs[q] :: rs.drop (q + 1)) := by
    rw [← List.drop_eq_getElem_cons hq, List.take_append_drop]
  have hcons : Tsunami.Server.stream (rs[q] :: rs.drop (q + 1)) =
      rs[q].encode ++ Tsunami.Server.stream (rs.drop (q + 1)) := rfl
  conv_lhs => rw [hsplit, stream_append, hcons, List.map_append, List.map_append]

theorem does_timeout (ht : (sc n).timeout = some k) (hk : k < 12 * c.written.length) :
    ∃ b rest, Does (clientHandler sp sc)
      ⟨.goto (.transfer n (.create (sc n) cfg)),
        (Tsunami.Server.stream c.written).map (.record, ·), t⟩
      ⟨.goto (.open (n + 1)), (.record, b) :: rest, t⟩ [] := by
  have hw : (sc n).Waits k := fun m hm => by
    rw [ht] at hm
    exact Nat.le_of_eq (Option.some.inj hm)
  have hq : k / 12 < c.written.length := by omega
  have hj : k % 12 ≤ 11 := by omega
  have hlen : (c.written.take (k / 12)).length = k / 12 := by
    rw [List.length_take, Nat.min_eq_left (Nat.le_of_lt hq)]
  have hbytes := stream_cut c.written hq
  generalize hr : c.written[k / 12] = r at hbytes
  have hty : r.requestType < 2 ^ 8 := written_type (hr ▸ List.getElem_mem hq)
  have hw₁ : (sc n).Waits (0 + 12 * (c.written.take (k / 12)).length) := hw.mono (by omega)
  have hw₂ : (sc n).Waits (0 + 12 * (c.written.take (k / 12)).length + k % 12) := hw.mono (by omega)
  obtain ⟨f₁, hf₁, h₁⟩ := does_records (t := t)
    (i := r.encode.map (Field.record, ·) ++
      (Tsunami.Server.stream (c.written.drop (k / 12 + 1))).map (Field.record, ·))
    (fun r hr => records_not_stop c r (List.mem_of_mem_take (take_written hq ▸ hr)))
      (between_create (sc n) cfg) hw₁
  obtain ⟨f₂, hf₂, h₂⟩ := does_part (t := t)
    (i := (Tsunami.Server.stream (c.written.drop (k / 12 + 1))).map (Field.record, ·))
      hty hf₁ hj hw₂
  have hcons : (sc n).timeout = some f₂.consumed := by
    rw [ht, hf₂.consumed, hlen]
    congr 1
    omega
  have hlt : k % 12 < r.encode.length := by
    rw [Retransmission.length_encode]
    exact Nat.mod_lt k (by decide)
  rw [List.drop_eq_getElem_cons hlt] at h₂
  refine ⟨r.encode[k % 12], (r.encode.drop (k % 12 + 1)).map (Field.record, ·) ++
    (Tsunami.Server.stream (c.written.drop (k / 12 + 1))).map (Field.record, ·), ?_⟩
  rw [hbytes]
  exact (h₁.trans h₂).trans (does_leave hcons)

theorem does_stop (hh : Heard c (sc n)) (hw : (sc n).Waits (12 * c.written.length)) :
    Does (clientHandler sp sc)
      ⟨.goto (.transfer n (.create (sc n) cfg)),
        (Tsunami.Server.stream c.written).map (.record, ·), t⟩
      ⟨.goto (.open (n + 1)), [], t⟩ [] := by
  obtain ⟨hstops, hsp⟩ := hh
  rw [Client.Call.written, if_pos hstops] at hw ⊢
  rw [List.length_append, List.length_map, List.length_singleton] at hw
  obtain ⟨f', hf', h₁⟩ := does_records (t := t)
    (i := (Tsunami.Server.stream [Client.stopRecord]).map (Field.record, ·))
    (records_not_stop c) (between_create (sc n) cfg) (hw.mono (by rw [List.length_map]; omega))
  rw [List.length_map, Nat.zero_add] at hf'
  have h₂ : Does (clientHandler sp sc) _ _ [] :=
    (does_record (i := []) (t := t) (r := Client.stopRecord)
    (by decide) hf' (hw.mono (by omega))).1 ⟨hsp, rfl⟩
  rw [List.append_nil] at h₂
  rw [stream_append, List.map_append]
  exact h₁.trans h₂

theorem does_all (hh : ¬ Heard c (sc n)) (hw : (sc n).Waits (12 * c.written.length)) :
    ∃ f', Between (12 * c.written.length) f' ∧ Does (clientHandler sp sc)
      ⟨.goto (.transfer n (.create (sc n) cfg)),
        (Tsunami.Server.stream c.written).map (.record, ·), t⟩
      ⟨.goto (.transfer n f'), [], t⟩ [] := by
  rw [Client.Call.written] at hw ⊢
  rw [List.length_append, List.length_map] at hw ⊢
  obtain ⟨f₁, hf₁, h₁⟩ := does_records (t := t)
    (i := (Tsunami.Server.stream (if c.stops = true then [Client.stopRecord] else [])).map (Field.record, ·))
    (records_not_stop c) (between_create (sc n) cfg)
    (hw.mono (by
      rw [List.length_map, Nat.zero_add]
      exact Nat.mul_le_mul_left 12 (Nat.le_add_right ..)))
  rw [List.length_map, Nat.zero_add] at hf₁
  rw [stream_append, List.map_append]
  by_cases hstops : c.stops = true
  · rw [if_pos hstops] at hw h₁ ⊢
    obtain ⟨f₂, hf₂, h₂⟩ := (does_record (i := []) (t := t) (r := Client.stopRecord) (by decide) hf₁
      (hw.mono (Nat.le_refl _))).2 fun h => hh ⟨hstops, h.1⟩
    rw [List.append_nil] at h₂
    exact ⟨f₂, hf₂, h₁.trans h₂⟩
  · rw [if_neg hstops] at h₁ ⊢
    exact ⟨f₁, hf₁, h₁⟩

end Tsunami.Control.Server
