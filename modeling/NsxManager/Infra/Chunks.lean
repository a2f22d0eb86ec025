import NsxManager.Infra.CurlClient

/-! One stream of bytes, however libcurl splits it into calls. -/

namespace NsxManager.Infra.CurlClient

open NsxManager.Core Lib SelfUpdate

section Fed

/-- The calls end with the first that does not take its chunk. -/
def feed (partPath : Bytes) : List Bytes → FileSink → FileProgram FileSink
  | [], sink => return sink
  | chunk :: chunks, sink => do
    let sink ← writeToFile partPath sink chunk
    if sink.failed then return sink else feed partPath chunks sink

/-- A call that did not take its chunk ends the transfer, with a code of its own. -/
def Transfer.endedBy (transfer : Transfer) (sink : FileSink) : Transfer :=
  if sink.failed then { transfer with code := .writeError } else transfer

def receiveFed (destPath partPath : Bytes) (expected : ExpectedArtifact) (transfer : Transfer) :
    FileProgram (Except HttpError Unit) := do
  let sink ← feed partPath transfer.chunks { limit := expected.size }
  let flushed ← Stdio.flush partPath
  settle destPath partPath (verdict expected (transfer.endedBy sink) flushed sink)

/-- The download as it goes with libcurl: `transfer` has all the chunks there are, and the code and status that follow
if every one of them is taken. -/
def downloadFed (url destPath : Bytes) (expected : ExpectedArtifact) (initialised : Bool) (transfer : Transfer) :
    FileProgram (Except HttpError Unit) :=
  if !isHttpsUrl url then return .error .insecureUrl
  else if expected.size = 0 then return .error .internal
  else if !initialised then return .error .internal
  else do
    let opened ← Stdio.create (partOf destPath)
    if !opened then return .error .writeFailed
    else receiveFed destPath (partOf destPath) expected transfer

variable {destPath partPath : Bytes}

lemma exec_feed (chunks : List Bytes) (sink : FileSink) (fates : List Fate) (card : Card) :
    ∃ given, given <+: chunks ∧
      Stdio.world.exec (feed partPath chunks sink) fates card = Stdio.world.exec (deliver partPath given sink) fates card := by
  induction chunks generalizing sink fates card with
  | nil => exact ⟨[], List.prefix_rfl, rfl⟩
  | cons chunk chunks ih =>
    have hsole : [chunk] <+: chunk :: chunks := List.prefix_append [chunk] chunks
    rw [feed, World.exec_bind]
    cases houtcome : (Stdio.world.exec (writeToFile partPath sink chunk) fates card).outcome with
    | none =>
      refine ⟨[chunk], hsole, ?_⟩
      rw [deliver, World.exec_bind, houtcome]
    | some sink' =>
      by_cases hfailed : sink'.failed = true
      · refine ⟨[chunk], hsole, ?_⟩
        rw [deliver, World.exec_bind, houtcome]
        simp only [hfailed, if_true]
        rfl
      · obtain ⟨given, hgiven, hexec⟩ := ih sink' (Stdio.world.exec (writeToFile partPath sink chunk) fates card).rest
          (Stdio.world.exec (writeToFile partPath sink chunk) fates card).state
        refine ⟨chunk :: given, List.cons_prefix_cons.mpr ⟨rfl, hgiven⟩, ?_⟩
        rw [deliver, World.exec_bind, houtcome]
        simp only [hfailed, Bool.false_eq_true, if_false, hexec]

lemma exec_receiveFed (expected : ExpectedArtifact) (transfer : Transfer) (fates : List Fate) (card : Card) :
    ∃ given : Transfer, given.chunks <+: transfer.chunks ∧
      Stdio.world.exec (receiveFed destPath partPath expected transfer) fates card =
        Stdio.world.exec (receive destPath partPath expected given) fates card := by
  obtain ⟨given, hgiven, hexec⟩ := @exec_feed partPath transfer.chunks { limit := expected.size } fates card
  have hcounted : given.flatten.length < 2 ^ 63 := by
    obtain ⟨rest, hrest⟩ := hgiven
    have hall := transfer.counted
    rw [← hrest, List.flatten_append, List.length_append] at hall
    omega
  rw [receiveFed, World.exec_bind, hexec]
  cases houtcome : (Stdio.world.exec (deliver partPath given { limit := expected.size }) fates card).outcome with
  | none =>
    refine ⟨{ transfer with chunks := given, counted := hcounted }, hgiven, ?_⟩
    rw [receive, World.exec_bind, houtcome]
  | some sink =>
    refine ⟨{ transfer with chunks := given, counted := hcounted, code := (transfer.endedBy sink).code }, hgiven, ?_⟩
    have hverdict : ∀ flushed, verdict expected (transfer.endedBy sink) flushed sink = verdict expected
        { transfer with chunks := given, counted := hcounted, code := (transfer.endedBy sink).code } flushed sink := by
      intro flushed
      rw [Transfer.endedBy]
      split <;> rfl
    rw [receive, World.exec_bind, houtcome]
    simp only [hverdict]

theorem downloadFed_is_download (url destPath : Bytes) (expected : ExpectedArtifact) (initialised : Bool)
    (transfer : Transfer) (fates : List Fate) (card : Card) :
    ∃ given : Transfer, given.chunks <+: transfer.chunks ∧
      Stdio.world.exec (downloadFed url destPath expected initialised transfer) fates card =
        Stdio.world.exec (download url destPath expected initialised given) fates card := by
  simp only [downloadFed, download]
  split
  · exact ⟨transfer, List.prefix_rfl, rfl⟩
  split
  · exact ⟨transfer, List.prefix_rfl, rfl⟩
  split
  · exact ⟨transfer, List.prefix_rfl, rfl⟩
  rw [World.exec_bind]
  cases houtcome : (Stdio.world.exec (Stdio.create (partOf destPath)) fates card).outcome with
  | none =>
    refine ⟨transfer, List.prefix_rfl, ?_⟩
    rw [World.exec_bind, houtcome]
  | some opened =>
    cases opened with
    | false =>
      refine ⟨transfer, List.prefix_rfl, ?_⟩
      rw [World.exec_bind, houtcome]
      simp only [Bool.not_false, if_true]
    | true =>
      obtain ⟨given, hgiven, hexec⟩ := @exec_receiveFed destPath (partOf destPath) expected transfer
        (Stdio.world.exec (Stdio.create (partOf destPath)) fates card).rest
        (Stdio.world.exec (Stdio.create (partOf destPath)) fates card).state
      refine ⟨given, hgiven, ?_⟩
      rw [World.exec_bind, houtcome]
      simp only [Bool.not_true, Bool.false_eq_true, if_false, hexec]

end Fed

def steady : World FileOp FileOp.Reply (FileOp → Fate) Card := ⟨fun e policy c => Stdio.step e (policy e) c⟩

def taken (room : ℕ) : List Bytes → Bytes
  | [] => []
  | chunk :: chunks => if chunk.length ≤ room then chunk ++ taken (room - chunk.length) chunks else []

def Cut (room : ℕ) (chunks : List Bytes) : Prop := ∃ start, start <+: chunks ∧ start.flatten.length = room

section Taken

variable {room : ℕ} {chunks : List Bytes}

lemma taken_eq_flatten (h : chunks.flatten.length ≤ room) : taken room chunks = chunks.flatten := by
  induction chunks generalizing room with
  | nil => rfl
  | cons chunk chunks ih =>
    rw [List.flatten_cons, List.length_append] at h
    rw [taken, if_pos (by omega), ih (by omega), List.flatten_cons]

lemma taken_begins : taken room chunks <+: chunks.flatten := by
  induction chunks generalizing room with
  | nil => exact List.prefix_rfl
  | cons chunk chunks ih =>
    rw [taken, List.flatten_cons]
    split
    · exact (List.prefix_append_right_inj chunk).mpr ih
    · exact List.nil_prefix

lemma length_taken_le : (taken room chunks).length ≤ room := by
  induction chunks generalizing room with
  | nil => exact Nat.zero_le room
  | cons chunk chunks ih =>
    rw [taken]
    split
    · next hfits =>
      have hrest := @ih (room - chunk.length)
      rw [List.length_append]
      omega
    · exact Nat.zero_le room

lemma cut_cons {chunk : Bytes} : Cut room (chunk :: chunks) ↔
    room = 0 ∨ chunk.length ≤ room ∧ Cut (room - chunk.length) chunks := by
  constructor
  · rintro ⟨start, hstart, hlength⟩
    cases start with
    | nil => exact .inl hlength.symm
    | cons first start =>
      obtain ⟨rfl, hrest⟩ := List.cons_prefix_cons.mp hstart
      rw [List.flatten_cons, List.length_append] at hlength
      exact .inr ⟨by omega, start, hrest, by omega⟩
  · rintro (rfl | ⟨hfits, start, hstart, hlength⟩)
    · exact ⟨[], List.nil_prefix, rfl⟩
    · refine ⟨chunk :: start, List.cons_prefix_cons.mpr ⟨rfl, hstart⟩, ?_⟩
      rw [List.flatten_cons, List.length_append]
      omega

lemma length_taken_eq_iff (h : room < chunks.flatten.length) : (taken room chunks).length = room ↔ Cut room chunks := by
  induction chunks generalizing room with
  | nil => exact absurd h (Nat.not_lt_zero room)
  | cons chunk chunks ih =>
    rw [List.flatten_cons, List.length_append] at h
    rw [taken, cut_cons]
    split
    · next hfits =>
      have hrest := @ih (room - chunk.length) (by omega)
      have hle := @length_taken_le (room - chunk.length) chunks
      rw [List.length_append, ← hrest]
      omega
    · simp only [List.length_nil]
      omega

lemma taken_eq_take (h : room < chunks.flatten.length) (hcut : Cut room chunks) :
    taken room chunks = chunks.flatten.take room := by
  have htake := List.prefix_iff_eq_take.mp (@taken_begins room chunks)
  rwa [(length_taken_eq_iff h).mpr hcut] at htake

lemma taken_congr {chunks' : List Bytes} (hbody : chunks'.flatten = chunks.flatten)
    (h : chunks.flatten.length ≤ room ∨ Cut room chunks ∧ Cut room chunks') : taken room chunks' = taken room chunks := by
  by_cases hover : room < chunks.flatten.length
  · obtain ⟨hcut, hcut'⟩ := h.resolve_left (not_le.mpr hover)
    rw [taken_eq_take hover hcut, taken_eq_take (hbody ▸ hover) hcut', hbody]
  · have hfits := not_lt.mp hover
    rw [taken_eq_flatten hfits, taken_eq_flatten (hbody ▸ hfits), hbody]

end Taken

structure FileSink.Open (sink : FileSink) (done : Bytes) : Prop where
  hasher : sink.hasher.Holds done
  written : sink.written = done.length.toUInt64
  failed : sink.failed = false
  fits : done.length ≤ sink.limit.toNat

structure FileSink.Ended (sink : FileSink) (limit : UInt64) (kept : Bytes) (refused : Bool) : Prop where
  hasher : sink.hasher.Holds kept
  written : sink.written = kept.length.toUInt64
  limit : sink.limit = limit
  failed : sink.failed = refused

section Run

variable {policy : FileOp → Fate} {destPath partPath done : Bytes} {c : Card} {sink : FileSink}

lemma limit_lt_iff (h : sink.Open done) {chunk : Bytes} (hcounted : done.length + chunk.length < 2 ^ 63) :
    sink.limit < sink.written + chunk.length.toUInt64 ↔ sink.limit.toNat - done.length < chunk.length := by
  have hfits := h.fits
  rw [h.written, UInt64.lt_iff_toNat_lt, UInt64.toNat_add, Nat.toUInt64_eq, Nat.toUInt64_eq, UInt64.toNat_ofNat',
    UInt64.toNat_ofNat']
  omega

lemma run_sole {e : FileOp} {reply : e.Reply} {d d' : Card} (h : Stdio.step e (policy e) d = (some reply, d')) :
    steady.run policy (.call e .done) d = (some reply, d') := by
  have hstep : steady.step e policy d = (some reply, d') := h
  rw [World.run_call, hstep]
  rfl

lemma run_fwrite (hwrites : ∀ path data, policy (.append path data) = .ok) (chunk : Bytes) :
    steady.run policy (fwrite partPath chunk) (c.insert partPath done) = (some true, c.insert partPath (done ++ chunk)) := by
  rw [fwrite]
  split
  · next hempty => rw [List.isEmpty_iff.mp hempty, List.append_nil]; rfl
  · have hextend : Stdio.extend (c.insert partPath done) partPath chunk = c.insert partPath (done ++ chunk) := by
      rw [Stdio.extend, AList.lookup_insert, AList.insert_insert]
      rfl
    refine run_sole (e := .append partPath chunk) ?_
    rw [hwrites, ← hextend]
    rfl

lemma run_writeToFile (hwrites : ∀ path data, policy (.append path data) = .ok) (h : sink.Open done) {chunk : Bytes}
    (hcounted : done.length + chunk.length < 2 ^ 63) :
    steady.run policy (writeToFile partPath sink chunk) (c.insert partPath done) =
      if chunk.length ≤ sink.limit.toNat - done.length then
        (some { sink with hasher := sink.hasher.update chunk, written := sink.written + chunk.length.toUInt64 },
          c.insert partPath (done ++ chunk))
      else (some { sink with failed := true }, c.insert partPath done) := by
  rw [writeToFile]
  by_cases hover : sink.limit.toNat - done.length < chunk.length
  · rw [if_pos ((limit_lt_iff h hcounted).mpr hover), if_neg (by omega)]
    rfl
  · rw [if_neg (fun hlt => hover ((limit_lt_iff h hcounted).mp hlt)), if_pos (by omega),
      World.run_bind_of_some steady (run_fwrite hwrites chunk)]
    rfl

lemma FileSink.Open.take (h : sink.Open done) {chunk : Bytes} (hfits : chunk.length ≤ sink.limit.toNat - done.length) :
    ({ sink with hasher := sink.hasher.update chunk, written := sink.written + chunk.length.toUInt64 } : FileSink).Open
      (done ++ chunk) := by
  have hroom := h.fits
  refine ⟨h.hasher.update chunk, ?_, h.failed, ?_⟩
  · rw [h.written, List.length_append]
    exact (UInt64.ofNat_add ..).symm
  · rw [List.length_append]
    change _ ≤ sink.limit.toNat
    omega

lemma run_feed (hwrites : ∀ path data, policy (.append path data) = .ok) (chunks : List Bytes) (h : sink.Open done)
    (hcounted : done.length + chunks.flatten.length < 2 ^ 63) :
    ∃ sink', steady.run policy (feed partPath chunks sink) (c.insert partPath done) =
        (some sink', c.insert partPath (done ++ taken (sink.limit.toNat - done.length) chunks)) ∧
      sink'.Ended sink.limit (done ++ taken (sink.limit.toNat - done.length) chunks)
        (decide (sink.limit.toNat - done.length < chunks.flatten.length)) := by
  induction chunks generalizing sink done with
  | nil =>
    refine ⟨sink, ?_, ?_⟩
    · rw [taken, List.append_nil]
      rfl
    · rw [taken, List.append_nil]
      exact ⟨h.hasher, h.written, rfl, by rw [h.failed]; rfl⟩
  | cons chunk chunks ih =>
    rw [List.flatten_cons, List.length_append] at hcounted
    have hfirst := @run_writeToFile policy partPath done c sink hwrites h chunk (by omega)
    rw [feed, taken, List.flatten_cons, List.length_append]
    by_cases hfits : chunk.length ≤ sink.limit.toNat - done.length
    · rw [if_pos hfits] at hfirst ⊢
      obtain ⟨sink', hrun, hended⟩ := ih (h.take hfits) (by rw [List.length_append]; omega)
      have hroom : sink.limit.toNat - (done ++ chunk).length = sink.limit.toNat - done.length - chunk.length := by
        rw [List.length_append, Nat.sub_sub]
      rw [hroom, List.append_assoc] at hrun hended
      refine ⟨sink', ?_, hended.hasher, hended.written, hended.limit, ?_⟩
      · rw [World.run_bind_of_some steady hfirst, if_neg (by simp [h.failed])]
        exact hrun
      · rw [hended.failed, decide_eq_decide]
        omega
    · rw [if_neg hfits] at hfirst ⊢
      refine ⟨{ sink with failed := true }, ?_, ?_⟩
      · rw [World.run_bind_of_some steady hfirst, if_pos rfl, List.append_nil]
        rfl
      · rw [List.append_nil]
        exact ⟨h.hasher, h.written, rfl, (decide_eq_true (by omega)).symm⟩

lemma verdict_congr {transfer transfer' : Transfer} (hcode : transfer'.code = transfer.code)
    (hverify : transfer'.verifyResult = transfer.verifyResult) (hstatus : transfer'.status = transfer.status)
    {sink sink' : FileSink} {limit : UInt64} {kept : Bytes} {refused : Bool} (h : sink.Ended limit kept refused)
    (h' : sink'.Ended limit kept refused) (expected : ExpectedArtifact) (flushed : Bool) :
    verdict expected (transfer'.endedBy sink') flushed sink' = verdict expected (transfer.endedBy sink) flushed sink := by
  have hended : (transfer'.endedBy sink').code = (transfer.endedBy sink).code ∧
      (transfer'.endedBy sink').verifyResult = (transfer.endedBy sink).verifyResult ∧
      (transfer'.endedBy sink').status = (transfer.endedBy sink).status := by
    rw [Transfer.endedBy, Transfer.endedBy, h.failed, h'.failed]
    split
    · exact ⟨rfl, hverify, hstatus⟩
    · exact ⟨hcode, hverify, hstatus⟩
  simp only [verdict, hended.1, hended.2.1, hended.2.2, h.failed, h'.failed, h.limit, h'.limit, h.written, h'.written,
    h.hasher.of_eq, h'.hasher.of_eq]

lemma verdict_of_refused {transfer : Transfer} {limit : UInt64} {kept : Bytes} (h : sink.Ended limit kept true)
    (expected : ExpectedArtifact) (flushed : Bool) :
    verdict expected (transfer.endedBy sink) flushed sink =
      if limit ≤ kept.length.toUInt64 then .tooLarge else .writeFailed := by
  have hended : transfer.endedBy sink = { transfer with code := .writeError } := by
    rw [Transfer.endedBy, h.failed]
    rfl
  simp [verdict, hended, classify, h.failed, h.limit, h.written]

lemma exists_reply (hpower : ∀ e n, policy e ≠ .torn n) {e : FileOp} (he : e ≠ .abort) (d : Card) :
    ∃ reply d', Stdio.step e (policy e) d = (some reply, d') := by
  cases hfate : policy e with
  | torn n => exact absurd hfate (hpower e n)
  | ok => cases e <;> first | exact absurd rfl he | exact ⟨_, _, rfl⟩
  | fails n => cases e <;> first | exact absurd rfl he | exact ⟨_, _, rfl⟩
  | corrupt bytes => cases e <;> first | exact absurd rfl he | exact ⟨_, _, rfl⟩

lemma run_discarded (hpower : ∀ e n, policy e ≠ .torn n) {error : HttpError} (herror : error ≠ .none) (d : Card) :
    (steady.run policy (Stdio.flush partPath >>= fun _ => settle destPath partPath error) d).1 = some (.error error) := by
  obtain ⟨flushed, d₁, hflush⟩ := exists_reply hpower (e := .flush partPath) nofun d
  obtain ⟨removed, d₂, hremove⟩ := exists_reply hpower (e := .remove partPath) nofun d₁
  have hrun : steady.run policy (Stdio.flush partPath) d = (some flushed, d₁) := run_sole hflush
  have hrun' : steady.run policy (Stdio.remove partPath) d₁ = (some removed, d₂) := run_sole hremove
  rw [World.run_bind_of_some steady hrun, settle, if_pos herror, discard, World.run_bind_of_some steady hrun']
  rfl

lemma open_start (expected : ExpectedArtifact) : ({ limit := expected.size } : FileSink).Open [] :=
  ⟨Sha256.holds_reset, rfl, rfl, Nat.zero_le _⟩

lemma run_receiveFed (hwrites : ∀ path data, policy (.append path data) = .ok) (expected : ExpectedArtifact)
    (transfer : Transfer) :
    ∃ sink : FileSink, sink.Ended expected.size (taken expected.size.toNat transfer.chunks)
        (decide (expected.size.toNat < transfer.chunks.flatten.length)) ∧
      steady.run policy (receiveFed destPath partPath expected transfer) (c.insert partPath []) =
        steady.run policy (Stdio.flush partPath >>= fun flushed =>
            settle destPath partPath (verdict expected (transfer.endedBy sink) flushed sink))
          (c.insert partPath (taken expected.size.toNat transfer.chunks)) := by
  obtain ⟨sink, hrun, hended⟩ := @run_feed policy partPath [] c _ hwrites transfer.chunks (open_start expected)
    (by rw [List.length_nil, Nat.zero_add]; exact transfer.counted)
  exact ⟨sink, hended, World.run_bind_of_some steady hrun _⟩

end Run

def Asked (policy : FileOp → Fate) (url destPath : Bytes) (expected : ExpectedArtifact) (initialised : Bool) : Prop :=
  isHttpsUrl url = true ∧ expected.size ≠ 0 ∧ initialised = true ∧ ∀ n, policy (.create (partOf destPath)) ≠ .fails n

section Split

variable {policy : FileOp → Fate} {url destPath : Bytes} {expected : ExpectedArtifact} {initialised : Bool} {card : Card}

lemma run_downloadFed (hpower : ∀ e n, policy e ≠ .torn n) (hasked : Asked policy url destPath expected initialised)
    (transfer : Transfer) :
    steady.run policy (downloadFed url destPath expected initialised transfer) card =
      steady.run policy (receiveFed destPath (partOf destPath) expected transfer) (card.insert (partOf destPath) []) := by
  obtain ⟨hurl, hsize, hinitialised, hopened⟩ := hasked
  have hcreate : steady.run policy (Stdio.create (partOf destPath)) card =
      (some true, card.insert (partOf destPath) []) := by
    refine run_sole (e := .create (partOf destPath)) ?_
    cases hfate : policy (.create (partOf destPath)) with
    | torn n => exact absurd hfate (hpower _ n)
    | fails n => exact absurd hfate (hopened n)
    | ok => rfl
    | corrupt bytes => rfl
  rw [downloadFed, if_neg (by simp [hurl]), if_neg hsize, if_neg (by simp [hinitialised]),
    World.run_bind_of_some steady hcreate]
  rfl

lemma run_downloadFed_of_not_asked (hasked : ¬Asked policy url destPath expected initialised) :
    ∃ outcome, ∀ transfer, steady.run policy (downloadFed url destPath expected initialised transfer) card =
      (some outcome, card) := by
  by_cases hurl : isHttpsUrl url = true
  case neg =>
    refine ⟨.error .insecureUrl, fun transfer => ?_⟩
    rw [downloadFed, if_pos (by simp [hurl])]
    rfl
  by_cases hsize : expected.size = 0
  case pos =>
    refine ⟨.error .internal, fun transfer => ?_⟩
    rw [downloadFed, if_neg (by simp [hurl]), if_pos hsize]
    rfl
  by_cases hinitialised : initialised = true
  case neg =>
    refine ⟨.error .internal, fun transfer => ?_⟩
    rw [downloadFed, if_neg (by simp [hurl]), if_neg hsize, if_pos (by simp [hinitialised])]
    rfl
  obtain ⟨n, hfails⟩ : ∃ n, policy (.create (partOf destPath)) = .fails n := by
    by_contra hnone
    exact hasked ⟨hurl, hsize, hinitialised, not_exists.mp hnone⟩
  have hcreate : steady.run policy (Stdio.create (partOf destPath)) card = (some false, card) := by
    refine run_sole (e := .create (partOf destPath)) ?_
    rw [hfails]
    rfl
  refine ⟨.error .writeFailed, fun transfer => ?_⟩
  rw [downloadFed, if_neg (by simp [hurl]), if_neg hsize, if_neg (by simp [hinitialised]),
    World.run_bind_of_some steady hcreate]
  rfl

lemma run_downloadFed_congr (hwrites : ∀ path data, policy (.append path data) = .ok)
    (hpower : ∀ e n, policy e ≠ .torn n) {transfer transfer' : Transfer} (hcode : transfer'.code = transfer.code)
    (hverify : transfer'.verifyResult = transfer.verifyResult) (hstatus : transfer'.status = transfer.status)
    (hbody : transfer'.chunks.flatten = transfer.chunks.flatten)
    (hkept : taken expected.size.toNat transfer'.chunks = taken expected.size.toNat transfer.chunks) :
    steady.run policy (downloadFed url destPath expected initialised transfer') card =
      steady.run policy (downloadFed url destPath expected initialised transfer) card := by
  by_cases hasked : Asked policy url destPath expected initialised
  · obtain ⟨sink, hended, hrun⟩ := @run_receiveFed policy destPath (partOf destPath) card hwrites
      expected transfer
    obtain ⟨sink', hended', hrun'⟩ := @run_receiveFed policy destPath (partOf destPath) card hwrites
      expected transfer'
    rw [hkept, hbody] at hended'
    rw [run_downloadFed hpower hasked, run_downloadFed hpower hasked, hrun, hrun', hkept]
    simp only [verdict_congr hcode hverify hstatus hended hended']
  · obtain ⟨outcome, hrun⟩ := @run_downloadFed_of_not_asked _ _ _ _ _ card hasked
    rw [hrun, hrun]

lemma outcome_of_oversize (hwrites : ∀ path data, policy (.append path data) = .ok)
    (hpower : ∀ e n, policy e ≠ .torn n) (hasked : Asked policy url destPath expected initialised) {transfer : Transfer}
    (hover : expected.size.toNat < transfer.chunks.flatten.length) :
    (steady.run policy (downloadFed url destPath expected initialised transfer) card).1 = some (.error .tooLarge) ↔
      Cut expected.size.toNat transfer.chunks := by
  obtain ⟨sink, hended, hrun⟩ := @run_receiveFed policy destPath (partOf destPath) card hwrites
    expected transfer
  rw [decide_eq_true hover] at hended
  have hle := @length_taken_le expected.size.toNat transfer.chunks
  have hiff : expected.size ≤ (taken expected.size.toNat transfer.chunks).length.toUInt64 ↔
      (taken expected.size.toNat transfer.chunks).length = expected.size.toNat := by
    have hlarge := expected.size.toNat_lt
    rw [UInt64.le_iff_toNat_le, Nat.toUInt64_eq, UInt64.toNat_ofNat']
    omega
  rw [run_downloadFed hpower hasked, hrun, ← length_taken_eq_iff hover, ← hiff]
  simp only [verdict_of_refused hended]
  split
  · next hfull => exact iff_of_true (run_discarded hpower (by decide) _) hfull
  · next hshort =>
    rw [run_discarded hpower (by decide)]
    exact iff_of_false (by simp) hshort

end Split

def SplitAlike (policy : FileOp → Fate) (url destPath : Bytes) (expected : ExpectedArtifact) (initialised : Bool)
    (card : Card) (transfer transfer' : Transfer) : Prop :=
  let run := fun t => steady.run policy (downloadFed url destPath expected initialised t) card
  run transfer' = run transfer ∧
    (Asked policy url destPath expected initialised → expected.size.toNat < transfer.chunks.flatten.length →
      (run transfer).1 = some (.error .tooLarge) ∧ (run transfer').1 = some (.error .tooLarge))

theorem download_ignores_splitting_iff (policy : FileOp → Fate) (url destPath : Bytes) (expected : ExpectedArtifact)
    (initialised : Bool) (card : Card) (transfer transfer' : Transfer)
    (hbody : transfer'.chunks.flatten = transfer.chunks.flatten) (hcode : transfer'.code = transfer.code)
    (hverify : transfer'.verifyResult = transfer.verifyResult) (hstatus : transfer'.status = transfer.status)
    (hwrites : ∀ path data, policy (.append path data) = .ok) (hpower : ∀ e n, policy e ≠ .torn n) :
    SplitAlike policy url destPath expected initialised card transfer transfer' ↔
      (Asked policy url destPath expected initialised → transfer.chunks.flatten.length ≤ expected.size.toNat ∨
        Cut expected.size.toNat transfer.chunks ∧ Cut expected.size.toNat transfer'.chunks) := by
  constructor
  · rintro ⟨-, hreport⟩ hasked
    refine or_iff_not_imp_left.mpr (fun hlong => ?_)
    have hover : expected.size.toNat < transfer.chunks.flatten.length := not_le.mp hlong
    obtain ⟨hfirst, hsecond⟩ := hreport hasked hover
    exact ⟨(outcome_of_oversize hwrites hpower hasked hover).mp hfirst,
      (outcome_of_oversize hwrites hpower hasked (hbody ▸ hover)).mp hsecond⟩
  · intro hsplit
    by_cases hasked : Asked policy url destPath expected initialised
    · have hkept := taken_congr hbody (hsplit hasked)
      refine ⟨run_downloadFed_congr hwrites hpower hcode hverify hstatus hbody hkept, fun _ hover => ?_⟩
      obtain ⟨hcut, hcut'⟩ := (hsplit hasked).resolve_left (not_le.mpr hover)
      exact ⟨(outcome_of_oversize hwrites hpower hasked hover).mpr hcut,
        (outcome_of_oversize hwrites hpower hasked (hbody ▸ hover)).mpr hcut'⟩
    · obtain ⟨outcome, hrun⟩ := @run_downloadFed_of_not_asked _ _ _ _ _ card hasked
      exact ⟨(hrun _).trans (hrun _).symm, fun h => absurd h hasked⟩

namespace Sample

def streamed (chunks : List Bytes) (h : chunks.flatten.length < 2 ^ 63) : Transfer := ⟨[], chunks, h, .ok, none, 200⟩

end Sample

theorem a_stream_of_the_expected_length_is_split_alike :
    SplitAlike (fun _ => .ok) (ascii "https://a/b") (ascii "b") Sample.expected true ∅
      (Sample.streamed [ascii "abc"] (by decide)) (Sample.streamed [ascii "a", ascii "bc"] (by decide)) := by
  have hlength : (Sample.streamed [ascii "abc"] (by decide)).chunks.flatten.length ≤ Sample.expected.size.toNat := by
    change (ascii "abc").length ≤ (3 : UInt64).toNat
    decide
  refine (download_ignores_splitting_iff (fun _ => .ok) (ascii "https://a/b") (ascii "b") Sample.expected true ∅
    (Sample.streamed [ascii "abc"] (by decide)) (Sample.streamed [ascii "a", ascii "bc"] (by decide)) rfl rfl rfl rfl
    (fun _ _ => rfl) (fun _ n => ?_)).mpr (fun _ => .inl hlength)
  simp

theorem a_longer_stream_is_reported_by_its_chunks :
    (steady.run (fun _ => .ok) (downloadFed (ascii "https://a/b") (ascii "b") Sample.expected true
        (Sample.streamed [ascii "abc", ascii "d"] (by decide))) ∅).1 = some (.error .tooLarge) ∧
      (steady.run (fun _ => .ok) (downloadFed (ascii "https://a/b") (ascii "b") Sample.expected true
        (Sample.streamed [ascii "abcd"] (by decide))) ∅).1 = some (.error .writeFailed) := by
  decide +kernel

end NsxManager.Infra.CurlClient
