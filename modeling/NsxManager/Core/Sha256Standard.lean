import NsxManager.Core.Sha256
import NsxManager.Lib.Fips180
import Mathlib.Tactic

/-! The streaming digest against the standard. -/

namespace NsxManager.Core.Sha256

open Lib

section Words

lemma toBitVec_loadBigEndian (b₀ b₁ b₂ b₃ : UInt8) :
    ((b₀.toUInt32 <<< 24) ||| (b₁.toUInt32 <<< 16) ||| (b₂.toUInt32 <<< 8) ||| b₃.toUInt32).toBitVec =
      b₀.toBitVec ++ b₁.toBitVec ++ b₂.toBitVec ++ b₃.toBitVec := by
  have hshift : ∀ (b : UInt8) (n : UInt32),
      (b.toUInt32 <<< n).toBitVec = b.toBitVec.setWidth 32 <<< (n.toNat % 32) := by
    intro b n
    simp [UInt32.toBitVec_shiftLeft]
  have hend : ∀ (b : UInt8) (n : ℕ), 8 ≤ n → b.toBitVec.getLsbD n = false :=
    fun b n h => BitVec.getLsbD_of_ge _ _ h
  apply BitVec.eq_of_getLsbD_eq
  intro i hi
  rw [UInt32.toBitVec_or, UInt32.toBitVec_or, UInt32.toBitVec_or, hshift, hshift, hshift, UInt8.toBitVec_toUInt32]
  simp only [BitVec.getLsbD_or, BitVec.getLsbD_append, BitVec.getLsbD_shiftLeft, BitVec.getLsbD_setWidth,
    UInt32.reduceToNat, Nat.reduceMod, hi, decide_true, Bool.true_and, Nat.sub_sub]
  -- the byte that bit `i` comes from; every other byte has no such bit
  split
  · simp [(by omega : i < 8), (by omega : i < 16), (by omega : i < 24)]
  split
  · simp [(by omega : 8 ≤ i), (by omega : i < 16), (by omega : i < 24), (by omega : i - 8 < 32)]
  split
  · simp [(by omega : 8 ≤ i), (by omega : 16 ≤ i), (by omega : i < 24), (by omega : i - 16 < 32),
      hend b₂ (i - 8) (by omega)]
  · simp [(by omega : 8 ≤ i), (by omega : 24 ≤ i), (by omega : i - 24 < 32), hend b₂ (i - 8) (by omega),
      hend b₁ (i - 16) (by omega)]

lemma loadBigEndian_eq (block : Bytes) (i : ℕ) :
    (loadBigEndian (block.drop (i * 4))).toBitVec = Fips180.wordAt block i := by
  have hbyte : ∀ j, (block.drop (i * 4)).getD j 0 = block.getD (4 * i + j) 0 := by
    intro j
    simp [List.getD_eq_getElem?_getD, Nat.mul_comm i 4]
  simp only [loadBigEndian, Fips180.wordAt, hbyte]
  exact toBitVec_loadBigEndian _ _ _ _

lemma toUInt8_shiftRight (w n : UInt32) (hn : n.toNat < 32) :
    (w >>> n).toUInt8 = ⟨w.toBitVec.extractLsb' n.toNat 8⟩ := by
  apply UInt8.toBitVec_inj.mp
  apply BitVec.eq_of_getLsbD_eq
  intro i hi
  simp [Nat.mod_eq_of_lt hn, hi]

lemma wordBytes_eq (w : UInt32) : wordBytes w = Fips180.bytesOf 4 w.toBitVec := by
  have hlast : w.toUInt8 = ⟨w.toBitVec.extractLsb' 0 8⟩ := by
    apply UInt8.toBitVec_inj.mp
    apply BitVec.eq_of_getLsbD_eq
    intro i hi
    simp [hi]
  rw [wordBytes, toUInt8_shiftRight w 24 (by decide), toUInt8_shiftRight w 16 (by decide),
    toUInt8_shiftRight w 8 (by decide), hlast]
  rfl

lemma mask_bit : ∀ i : Fin 8, (255#8)[i.val] = true := by decide

lemma byte_of_count (bits : UInt64) {n : ℕ} (hn : n < 64) :
    ((bits >>> n.toUInt64) &&& 0xff).toUInt8 = ⟨bits.toBitVec.extractLsb' n 8⟩ := by
  apply UInt8.toBitVec_inj.mp
  apply BitVec.eq_of_getLsbD_eq
  intro i hi
  simp only [Nat.toUInt64_eq, UInt64.toBitVec_toUInt8, UInt64.toBitVec_and, UInt64.toBitVec_shiftRight]
  simp [Nat.mod_eq_of_lt hn, hi]
  exact fun _ => mask_bit ⟨i, hi⟩

lemma lengthBytes_eq (bits : UInt64) : lengthBytes bits = Fips180.bytesOf 8 bits.toBitVec := by
  refine List.map_congr_left (fun i hi => ?_)
  have hi' : i < 8 := List.mem_range.mp hi
  rw [byte_of_count bits (by omega), show (7 - i) * 8 = 8 * (8 - 1 - i) by omega]

end Words

def State.vars (s : State) : Fips180.Vars :=
  ⟨s.a.toBitVec, s.b.toBitVec, s.c.toBitVec, s.d.toBitVec, s.e.toBitVec, s.f.toBitVec, s.g.toBitVec, s.h.toBitVec⟩

section Compress

lemma constants_eq : Fips180.constants = kRoundConstants.map UInt32.toBitVec := by decide +kernel

lemma initial_eq : kInitialState.vars = Fips180.initial := by
  have h : [kInitialState.a, kInitialState.b, kInitialState.c, kInitialState.d, kInitialState.e, kInitialState.f,
      kInitialState.g, kInitialState.h].map UInt32.toBitVec =
      [2, 3, 5, 7, 11, 13, 17, 19].map (Fips180.rootFraction 2) := by decide +kernel
  simp only [List.map_cons, List.map_nil, List.cons.injEq, and_true] at h
  simp only [State.vars, Fips180.initial, h]

lemma round_vars (s : State) (k w : UInt32) : (round s (k, w)).vars = Fips180.round s.vars k.toBitVec w.toBitVec := rfl

lemma toBitVec_getD (l : List UInt32) (j : ℕ) : (l.getD j 0).toBitVec = (l.map UInt32.toBitVec).getD j 0 := by
  simp only [List.getD_eq_getElem?_getD, List.getElem?_map]
  cases l[j]? <;> rfl

lemma extend_eq (w : ℕ → Fips180.Word) (n : ℕ) {m : ℕ} (hm : 16 ≤ m) {words : List UInt32}
    (hwords : words.map UInt32.toBitVec = ((List.range m).map (Fips180.schedule w)).reverse) :
    (extend n words).map UInt32.toBitVec = ((List.range (m + n)).map (Fips180.schedule w)).reverse := by
  induction n generalizing m words with
  | zero => exact hwords
  | succ n ih =>
    have hword : ∀ j, j < m → (words.getD j 0).toBitVec = Fips180.schedule w (m - 1 - j) := by
      intro j hj
      rw [toBitVec_getD, hwords, List.getD_eq_getElem?_getD, List.getElem?_reverse (by simpa using hj), List.length_map,
        List.length_range, List.getElem?_map, List.getElem?_range (by omega)]
      rfl
    rw [extend, Nat.add_comm n 1, ← Nat.add_assoc]
    refine ih (by omega) ?_
    rw [List.range_succ, List.map_append, List.reverse_append, List.map_cons, hwords]
    congr 1
    rw [Fips180.schedule, if_neg (by omega), show m - 2 = m - 1 - 1 by omega, show m - 7 = m - 1 - 6 by omega,
      show m - 15 = m - 1 - 14 by omega, show m - 16 = m - 1 - 15 by omega]
    rw [← hword 1 (by omega), ← hword 6 (by omega), ← hword 14 (by omega), ← hword 15 (by omega)]
    rfl

lemma schedule_eq (block : Bytes) : (schedule block).map UInt32.toBitVec =
    (List.range 64).map (Fips180.schedule (Fips180.wordAt block)) := by
  have hfirst : (((List.range 16).map (fun i => loadBigEndian (block.drop (i * 4)))).reverse).map UInt32.toBitVec =
      ((List.range 16).map (Fips180.schedule (Fips180.wordAt block))).reverse := by
    rw [List.map_reverse, List.map_map]
    congr 1
    refine List.map_congr_left (fun i hi => ?_)
    rw [Fips180.schedule, if_pos (List.mem_range.mp hi), Function.comp_apply, loadBigEndian_eq]
  rw [schedule, List.map_reverse, extend_eq _ 48 le_rfl hfirst, List.reverse_reverse]

lemma zip_concat {α β : Type} (l : List α) {ws : List β} (x : β) (d : α) (h : ws.length < l.length) :
    l.zip (ws ++ [x]) = l.zip ws ++ [(l.getD ws.length d, x)] := by
  induction ws generalizing l with
  | nil =>
    cases l with
    | nil => cases h
    | cons a l => simp
  | cons w ws ih =>
    cases l with
    | nil => cases h
    | cons a l => simp [ih l (by simpa using h)]

lemma rounds_eq (s : State) {words : List UInt32} {w : ℕ → Fips180.Word} (n : ℕ)
    (hwords : words.map UInt32.toBitVec = (List.range n).map w) (hn : n ≤ 64) :
    ((kRoundConstants.zip words).foldl round s).vars = Fips180.rounds w s.vars n := by
  induction n generalizing words with
  | zero =>
    obtain rfl : words = [] := by simpa using hwords
    rfl
  | succ n ih =>
    rw [List.range_succ, List.map_append] at hwords
    obtain ⟨ws, last, rfl, hws, hlast⟩ := List.map_eq_append_iff.mp hwords
    obtain ⟨x, rfl, hx⟩ : ∃ x, last = [x] ∧ x.toBitVec = w n := by
      obtain ⟨x, hx⟩ := List.length_eq_one_iff.mp (by simpa using congrArg List.length hlast)
      exact ⟨x, hx, by simpa [hx] using hlast⟩
    have hlen : ws.length = n := by simpa using congrArg List.length hws
    have hconstant : (kRoundConstants.getD n 0).toBitVec = Fips180.constants.getD n 0 := by
      rw [constants_eq, toBitVec_getD]
    rw [zip_concat kRoundConstants x 0 (by rw [hlen]; exact hn), List.foldl_append, List.foldl_cons, List.foldl_nil,
      round_vars, ih hws (by omega), Fips180.rounds, hlen, hconstant, hx]

lemma compress_vars (s : State) (block : Bytes) : (compress s block).vars = Fips180.compress s.vars block := by
  have hrounds := rounds_eq s 64 (schedule_eq block) le_rfl
  rw [compress, Fips180.compress, ← hrounds]
  rfl

end Compress

section Stream

def consume (s : State) (p : Bytes) : State := (absorb (p.length / 64) s p).1

lemma absorb_append {n : ℕ} {s : State} {a b : Bytes} (h : a.length = 64 * n) :
    absorb n s (a ++ b) = ((absorb n s a).1, b) := by
  induction n generalizing s a with
  | zero =>
    obtain rfl : a = [] := List.length_eq_zero_iff.mp h
    rfl
  | succ n ih =>
    have hlong : 64 ≤ a.length := by omega
    rw [absorb, absorb, List.take_append_of_le_length hlong, List.drop_append_of_le_length hlong]
    exact ih (by rw [List.length_drop]; omega)

lemma absorb_add (n m : ℕ) (s : State) (p : Bytes) :
    absorb (n + m) s p = absorb m (absorb n s p).1 (absorb n s p).2 := by
  induction n generalizing s p with
  | zero => rw [Nat.zero_add, absorb]
  | succ n ih => rw [Nat.add_right_comm, absorb, ih, absorb]

lemma consume_append {s : State} {a : Bytes} (h : 64 ∣ a.length) (b : Bytes) :
    consume s (a ++ b) = consume (consume s a) b := by
  obtain ⟨n, hn⟩ := h
  have hblocks : (a ++ b).length / 64 = n + b.length / 64 := by
    rw [List.length_append]
    omega
  rw [consume, hblocks, absorb_add, absorb_append hn, consume, consume, show a.length / 64 = n by omega]

lemma consume_block {s : State} {block : Bytes} (h : block.length = 64) : consume s block = compress s block := by
  rw [consume, h, show 64 / 64 = 0 + 1 from rfl, absorb, absorb, List.take_of_length_le h.le]

lemma consume_nil (s : State) : consume s [] = s := rfl

/-- What has gone in so far: whole blocks that are in the state, and the rest in the buffer. -/
structure Fed (s : Sha256) (message : Bytes) : Prop where
  unfinished : s.finished = false
  room : s.buffer.length < 64
  blocks : ∃ whole, message = whole ++ s.buffer ∧ 64 ∣ whole.length ∧ s.state = consume kInitialState whole

lemma Fed.length_buffer {s : Sha256} {message : Bytes} (h : Fed s message) : s.buffer.length = message.length % 64 := by
  obtain ⟨whole, rfl, hwhole, _⟩ := h.blocks
  have hroom := h.room
  rw [List.length_append]
  omega

lemma fed_reset : Fed reset [] := ⟨rfl, Nat.zero_lt_succ 63, [], rfl, dvd_zero _, (consume_nil _).symm⟩

lemma Fed.recount {s : Sha256} {message : Bytes} (h : Fed s message) (bits : UInt64) :
    Fed { s with bitCount := bits } message := ⟨h.unfinished, h.room, h.blocks⟩

lemma Fed.fill {s : Sha256} {message used : Bytes} (h : Fed s message) (hfull : (s.buffer ++ used).length = 64) :
    Fed { s with state := compress s.state (s.buffer ++ used), buffer := [] } (message ++ used) := by
  obtain ⟨whole, rfl, hwhole, hstate⟩ := h.blocks
  refine ⟨h.unfinished, Nat.zero_lt_succ 63, whole ++ (s.buffer ++ used), ?_, ?_, ?_⟩
  · rw [List.append_nil, List.append_assoc]
  · rw [List.length_append, hfull]
    exact Nat.dvd_add hwhole (dvd_refl 64)
  · rw [consume_append hwhole, ← hstate, consume_block hfull]

lemma Fed.hold {s : Sha256} {message used : Bytes} (h : Fed s message) (hroom : (s.buffer ++ used).length < 64) :
    Fed { s with buffer := s.buffer ++ used } (message ++ used) := by
  obtain ⟨whole, rfl, hwhole, hstate⟩ := h.blocks
  exact ⟨h.unfinished, hroom, whole, List.append_assoc .., hwhole, hstate⟩

lemma Fed.topUp {s : Sha256} {message : Bytes} (h : Fed s message) (p : Bytes) :
    ∃ used s' rest, topUp s p = (s', rest) ∧ p = used ++ rest ∧ Fed s' (message ++ used) ∧
      (s'.buffer = [] ∨ rest = []) := by
  have hroom := h.room
  by_cases hused : 0 < s.buffer.length
  · set take := min p.length (64 - s.buffer.length) with htake
    have hlen : (s.buffer ++ p.take take).length = s.buffer.length + take := by
      rw [List.length_append, List.length_take]
      omega
    by_cases hfull : (s.buffer ++ p.take take).length = 64
    · refine ⟨p.take take, _, _, ?_, (List.take_append_drop ..).symm, h.fill hfull, .inl rfl⟩
      rw [Sha256.topUp, if_pos hused]
      exact if_pos hfull
    · have hrest : p.drop take = [] := List.drop_eq_nil_of_le (by omega)
      refine ⟨p.take take, _, _, ?_, (List.take_append_drop ..).symm, h.hold (by omega), .inr hrest⟩
      rw [Sha256.topUp, if_pos hused]
      exact if_neg hfull
  · have hnil : s.buffer = [] := List.length_eq_zero_iff.mp (by omega)
    exact ⟨[], s, p, by rw [Sha256.topUp, if_neg hused], rfl, by rwa [List.append_nil], .inl hnil⟩

lemma Fed.absorb {s : Sha256} {message rest : Bytes} (h : Fed s message) (hdone : s.buffer = [] ∨ rest = []) :
    Fed (if 0 < (absorb (rest.length / 64) s.state rest).2.length then
        { s with state := (absorb (rest.length / 64) s.state rest).1,
                 buffer := (absorb (rest.length / 64) s.state rest).2 }
      else { s with state := (absorb (rest.length / 64) s.state rest).1 }) (message ++ rest) := by
  obtain ⟨whole, rfl, hwhole, hstate⟩ := h.blocks
  rcases hdone with hbuffer | rfl
  · have hlen : (rest.take (64 * (rest.length / 64))).length = 64 * (rest.length / 64) := by
      rw [List.length_take]
      omega
    have hsplit := List.take_append_drop (64 * (rest.length / 64)) rest
    have habsorb := absorb_append (s := s.state) (b := rest.drop (64 * (rest.length / 64))) hlen
    rw [hsplit] at habsorb
    have hconsume : (Sha256.absorb (rest.length / 64) s.state (rest.take (64 * (rest.length / 64)))).1 =
        consume kInitialState (whole ++ rest.take (64 * (rest.length / 64))) := by
      rw [consume_append hwhole, ← hstate, consume, hlen, Nat.mul_div_cancel_left _ (by decide)]
    have hmessage : whole ++ s.buffer ++ rest =
        whole ++ rest.take (64 * (rest.length / 64)) ++ rest.drop (64 * (rest.length / 64)) := by
      rw [hbuffer, List.append_nil, List.append_assoc, hsplit]
    have hroom : (rest.drop (64 * (rest.length / 64))).length < 64 := by
      rw [List.length_drop]
      omega
    have hdvd : 64 ∣ (whole ++ rest.take (64 * (rest.length / 64))).length := by
      rw [List.length_append, hlen]
      exact Nat.dvd_add hwhole (Nat.dvd_mul_right ..)
    rw [habsorb]
    split
    · exact ⟨h.unfinished, hroom, _, hmessage, hdvd, hconsume⟩
    · next hnone =>
      have hnil : rest.drop (64 * (rest.length / 64)) = [] :=
        List.length_eq_zero_iff.mp (Nat.eq_zero_of_not_pos hnone)
      rw [hnil, ← hbuffer] at hmessage
      exact ⟨h.unfinished, h.room, _, hmessage, hdvd, hconsume⟩
  · rw [List.append_nil, List.length_nil, Nat.zero_div, Sha256.absorb, List.length_nil, if_neg (Nat.lt_irrefl 0)]
    exact h

lemma Fed.update {s : Sha256} {message : Bytes} (h : Fed s message) (data : Bytes) :
    Fed (s.update data) (message ++ data) := by
  rw [Sha256.update]
  split
  · next hskip =>
    obtain rfl : data = [] := by simpa [h.unfinished] using hskip
    rwa [List.append_nil]
  · dsimp only
    obtain ⟨used, s', rest, htop, hdata, hfed, hdone⟩ :=
      (h.recount (s.bitCount + data.length.toUInt64 * 8)).topUp data
    rw [htop, hdata, ← List.append_assoc]
    exact hfed.absorb hdone

-- Stated of any field values: unfolded at a compressed state, `rfl` would run the compression.
lemma bitCount_mk (state : State) (buffer : Bytes) (bits : UInt64) (finished : Bool) :
    (Sha256.mk state buffer bits finished).bitCount = bits := rfl

lemma bitCount_topUp (s : Sha256) (p : Bytes) : (topUp s p).1.bitCount = s.bitCount := by
  rw [topUp]
  split
  · dsimp only
    split <;> exact bitCount_mk ..
  · rfl

lemma bitCount_update {s : Sha256} (h : s.finished = false) (data : Bytes) :
    (s.update data).bitCount = s.bitCount + data.length.toUInt64 * 8 := by
  rw [update]
  split
  · next hskip =>
    obtain rfl : data = [] := by simpa [h] using hskip
    exact (UInt64.add_zero _).symm
  · dsimp only
    split <;> rw [bitCount_mk, bitCount_topUp, bitCount_mk]

lemma Fed.padZeros {s : Sha256} {message : Bytes} (bits : UInt64) (h : Fed s message) {n z : ℕ}
    (hz : z = (56 + 64 - message.length % 64) % 64) (hn : z ≤ n) :
    Fed (padZeros bits n s) (message ++ List.replicate z 0) ∧ (padZeros bits n s).buffer.length = 56 := by
  have hbuffer := h.length_buffer
  induction n generalizing s message z with
  | zero =>
    obtain rfl : z = 0 := by omega
    rw [Sha256.padZeros, List.replicate_zero, List.append_nil]
    exact ⟨h, by omega⟩
  | succ n ih =>
    rw [Sha256.padZeros]
    split
    · next hdone =>
      obtain rfl : z = 0 := by omega
      rw [List.replicate_zero, List.append_nil]
      exact ⟨h, hdone⟩
    · next hmore =>
      obtain ⟨z, rfl⟩ : ∃ z', z = z' + 1 := ⟨z - 1, by omega⟩
      have hnext := (h.update [0]).recount bits
      rw [List.replicate_succ, List.append_cons]
      refine ih hnext ?_ (by omega) hnext.length_buffer
      rw [List.length_append, List.length_singleton]
      omega

lemma Fed.close {s : Sha256} {message : Bytes} (h : Fed s message) : s.close.finished = true ∧
    s.close.state = consume kInitialState (message ++ 0x80 :: (List.replicate
      ((56 + 64 - (message.length + 1) % 64) % 64) 0 ++ lengthBytes s.bitCount)) := by
  have hstart := (h.update [0x80]).recount s.bitCount
  obtain ⟨hpadded, hbuffer⟩ := hstart.padZeros s.bitCount (n := 64) rfl (by omega)
  obtain ⟨whole, hmessage, hwhole, hstate⟩ := hpadded.blocks
  rw [Sha256.close, if_neg (by rw [h.unfinished]; exact Bool.false_ne_true)]
  refine ⟨rfl, ?_⟩
  rw [List.append_cons, ← List.append_assoc, show message.length + 1 = (message ++ [0x80]).length by simp, hmessage,
    List.append_assoc, consume_append hwhole, ← hstate, consume_block]
  rw [List.length_append, hbuffer]
  rfl

lemma vars_consume (s : State) (p : Bytes) : (consume s p).vars = Fips180.hashBlocks (p.length / 64) s.vars p := by
  rw [consume]
  induction p.length / 64 generalizing s p with
  | zero => rfl
  | succ n ih => rw [Sha256.absorb, ih, compress_vars, Fips180.hashBlocks]

lemma toList_digest (s : State) : s.digest.toList = s.vars.words.flatMap (Fips180.bytesOf 4) := by
  have hwords : s.vars.words = s.words.map UInt32.toBitVec := rfl
  rw [hwords, List.flatMap_map, State.digest, ← funext wordBytes_eq]
  exact List.toList_toArray ..

structure Holds (s : Sha256) (message : Bytes) : Prop extends Fed s message where
  counted : s.bitCount = message.length.toUInt64 * 8

lemma holds_reset : Holds reset [] := ⟨fed_reset, rfl⟩

lemma Holds.update {s : Sha256} {message : Bytes} (h : Holds s message) (data : Bytes) :
    Holds (s.update data) (message ++ data) := by
  refine ⟨h.toFed.update data, ?_⟩
  rw [bitCount_update h.unfinished, h.counted, List.length_append]
  simp only [Nat.toUInt64_eq, UInt64.ofNat_add, UInt64.add_mul]

lemma Holds.updates {s : Sha256} {message : Bytes} (h : Holds s message) (chunks : List Bytes) :
    Holds (chunks.foldl Sha256.update s) (message ++ chunks.flatten) := by
  induction chunks generalizing s message with
  | nil => rwa [List.flatten_nil, List.append_nil]
  | cons chunk chunks ih =>
    rw [List.foldl_cons, List.flatten_cons, ← List.append_assoc]
    exact ih (h.update chunk)

lemma toBitVec_count (n : ℕ) : (n.toUInt64 * 8).toBitVec = BitVec.ofNat 64 (8 * n) := by
  rw [Nat.mul_comm 8 n, BitVec.ofNat_mul]
  rfl

lemma Holds.finish {s : Sha256} {message : Bytes} (h : Holds s message) :
    s.finish.1.toList = Fips180.sha256 message := by
  have hzeros : (56 + 64 - (message.length + 1) % 64) % 64 = Fips180.zeroBits (8 * message.length) / 8 := by
    rw [Fips180.zeroBits]
    omega
  rw [Sha256.finish, toList_digest, h.toFed.close.2, vars_consume, initial_eq, hzeros, lengthBytes_eq, h.counted,
    toBitVec_count]
  rfl

lemma toList_of (message : Bytes) : (of message).toList = Fips180.sha256 message :=
  (holds_reset.update message).finish

lemma Holds.of_eq {s : Sha256} {message : Bytes} (h : Holds s message) : s.finish.1 = of message :=
  Vector.toList_inj.mp (h.finish.trans (toList_of message).symm)

end Stream

section Finished

lemma update_of_finished {s : Sha256} (h : s.finished = true) (data : Bytes) : s.update data = s :=
  if_pos (.inl h)

lemma close_of_finished {s : Sha256} (h : s.finished = true) : s.close = s := if_pos h

inductive Call where
  | update (data : Bytes)
  | finish

def Call.apply (s : Sha256) : Call → Sha256
  | .update data => s.update data
  | .finish => s.finish.2

lemma apply_of_finished {s : Sha256} (h : s.finished = true) (call : Call) : call.apply s = s := by
  cases call with
  | update data => exact update_of_finished h data
  | finish => exact close_of_finished h

lemma foldl_of_finished {s : Sha256} (h : s.finished = true) (calls : List Call) : calls.foldl Call.apply s = s := by
  induction calls with
  | nil => rfl
  | cons call calls ih => rw [List.foldl_cons, apply_of_finished h, ih]

end Finished

theorem digest_is_the_standards (chunks : List Bytes) :
    ((chunks.foldl update reset).finish.1).toList = Fips180.sha256 chunks.flatten ∧
      ∀ calls : List Call, (calls.foldl Call.apply (chunks.foldl update reset).finish.2).finish.1 =
        (chunks.foldl update reset).finish.1 := by
  have hholds : Holds (chunks.foldl update reset) chunks.flatten := holds_reset.updates chunks
  refine ⟨hholds.finish, fun calls => ?_⟩
  have hfinished : (chunks.foldl update reset).finish.2.finished = true := hholds.toFed.close.1
  rw [foldl_of_finished hfinished, Sha256.finish, close_of_finished hfinished]
  rfl

end NsxManager.Core.Sha256
