import NsxManager.Forwarder.Steps

/-! Whatever the forwarder is doing when it stops, the application or its backup is still there. -/

namespace NsxManager.Forwarder

open NsxManager.Core Lib Stdio

inductive Role where
  | staged
  | target
  | incoming
  | backup
  | handoff
  | temporary
  deriving DecidableEq

def Role.all : List Role := [.staged, .target, .incoming, .backup, .handoff, .temporary]

lemma injective_of_nodup {f : Role → Bytes} (h : (Role.all.map f).Nodup) : Function.Injective f := by
  intro r s heq
  have hmem : ∀ q : Role, q ∈ Role.all := by
    intro q
    cases q <;> decide
  exact List.inj_on_of_nodup_map h (hmem r) (hmem s) heq

structure Layout where
  name : Role → Bytes
  distinct : Function.Injective name
  incoming : name .incoming = name .target ++ ascii ".new"
  temporary : name .temporary = name .handoff ++ ascii ".tmp"

abbrev View := Role → Option Bytes

namespace Layout

variable (L : Layout) {c c' : Card} {r s : Role}

def view (c : Card) : View := fun r => c.lookup (L.name r)

lemma view_erase : L.view (c.erase (L.name r)) = Function.update (L.view c) r none := by
  funext s
  simp only [view, Card.lookup_erase_eq, L.distinct.eq_iff, Function.update_apply]

lemma view_move {bytes : Bytes} (hr : L.view c r = some bytes) (hs : L.view c s = none) :
    L.view (c.move (L.name r) (L.name s)) =
      Function.update (Function.update (L.view c) r none) s (some bytes) := by
  funext q
  simp only [view, c.lookup_move _ hr hs, L.distinct.eq_iff, Function.update_apply]

lemma view_agree (roles : List Role) (h : Card.Agree (roles.map L.name) c c') (hr : r ∉ roles) :
    L.view c' r = L.view c r := by
  refine h _ (fun hmem => hr ?_)
  obtain ⟨s, hs, heq⟩ := List.mem_map.mp hmem
  exact L.distinct heq ▸ hs

end Layout

structure Follows (L : Layout) (sha : Digest) (h : Handoff) : Prop where
  staged : h.stagedNro = L.name .staged
  target : h.targetNro = L.name .target
  backup : h.backupNro = L.name .backup
  digest : h.stagedSha256 = sha

lemma Follows.incoming {L : Layout} {sha : Digest} {h : Handoff} (hf : Follows L sha h) :
    incomingNro h = L.name .incoming := by
  rw [incomingNro, hf.target, L.incoming]

/-- `good` is what counts as the application; `fresh` is what a copy may have put at the target. -/
structure Terms where
  J : JsonLibrary
  L : Layout
  sha : Digest
  good : Bytes → Prop
  fresh : Bytes → Prop

namespace Terms

variable (t : Terms)

def Instructed (v : View) : Prop :=
  ∀ text, v .handoff = some text → ∃ h, parseHandoff t.J text = .ok h ∧ Follows t.L t.sha h

structure Sound (v : View) : Prop where
  target : ∃ b, v .target = some b ∧ t.good b
  instructed : t.Instructed v

structure Displaced (v : View) : Prop where
  backup : ∃ b, v .backup = some b ∧ t.good b
  target : ∀ n, v .target = some n → t.fresh n
  handoff : ∃ text, v .handoff = some text
  instructed : t.Instructed v

def Safe (v : View) : Prop := t.Sound v ∨ t.Displaced v

def Ready (v : View) : Prop := t.Sound v ∨ (t.Displaced v ∧ v .target = none)

variable {t} {v : View}

lemma Ready.safe (h : t.Ready v) : t.Safe v := h.imp_right And.left

lemma Safe.ready (hsafe : t.Safe v) (hfresh : ∀ b, t.fresh b → t.good b) : t.Ready v := by
  rcases hsafe with hs | hd
  · exact .inl hs
  · cases hT : v .target with
    | none => exact .inr ⟨hd, hT⟩
    | some n => exact .inl ⟨⟨n, hT, hfresh n (hd.target n hT)⟩, hd.instructed⟩

lemma Sound.update (h : t.Sound v) {r : Role} (hr : r ≠ .target) (hh : r ≠ .handoff) (b : Option Bytes) :
    t.Sound (Function.update v r b) := by
  refine ⟨?_, ?_⟩
  · simpa [Function.update_of_ne hr.symm] using h.target
  · simpa [Instructed, Function.update_of_ne hh.symm] using h.instructed

lemma Sound.forget (h : t.Sound v) : t.Sound (Function.update v .handoff none) := by
  refine ⟨?_, ?_⟩
  · simpa using h.target
  · simp [Instructed]

lemma Sound.remove (h : t.Sound v) {r : Role} (hr : r ≠ .target) :
    t.Sound (Function.update v r none) := by
  by_cases hh : r = .handoff
  · exact hh ▸ h.forget
  · exact h.update hr hh none

lemma Sound.of_agree (h : t.Sound v) {v' : View} (ht : v' .target = v .target)
    (hh : v' .handoff = v .handoff ∨ v' .handoff = none) : t.Sound v' := by
  refine ⟨by simpa [ht] using h.target, fun text htext => ?_⟩
  rcases hh with hh | hh
  · exact h.instructed text (hh ▸ htext)
  · rw [hh] at htext
    cases htext

structure Admits (t : Terms) (A : Event FileOp FileOp.Reply Fate → Prop) : Prop where
  record : Faithful A (t.L.name .temporary)
  copy : ∀ b, (Faithful A (t.L.name .incoming) → Sha256.of b = t.sha) → t.fresh b
  verified : ∀ f b, A ⟨.hash (t.L.name .target), f, some t.sha⟩ → t.fresh b → Sha256.of b = t.sha → t.good b

def safeOn (t : Terms) (c : Card) : Prop := t.Safe (t.L.view c)

section Runs

variable {A : Event FileOp FileOp.Reply Fate → Prop} {α : Type} {Q : α → Card → Prop} {c : Card}
  {h : Handoff}

lemma wp_removeOther {k : FileProgram α} {r : Role} (hr : r ≠ .target) (hs : t.Sound (t.L.view c))
    (hk : ∀ c', t.Sound (t.L.view c') → world.wp A t.safeOn k Q c') :
    world.wp A t.safeOn (Stdio.remove (t.L.name r) >>= fun _ => k) Q c := by
  refine wp_remove (.inl hs) (fun _ => hk c hs) (fun _ => hk _ ?_)
  rw [t.L.view_erase]
  exact hs.remove hr

lemma wp_cleanUp {Q : Unit → Card → Prop} (hf : Follows t.L t.sha h) (hs : t.Sound (t.L.view c))
    (hQ : ∀ c', t.Sound (t.L.view c') → Q () c') :
    world.wp A t.safeOn (cleanUp h (t.L.name .handoff)) Q c := by
  rw [cleanUp, hf.backup, hf.staged]
  refine wp_removeOther (by decide) hs (fun c₁ h₁ => wp_removeOther (by decide) h₁ (fun c₂ h₂ => ?_))
  exact wp_removeOther (by decide) h₂ hQ

lemma Displaced.clear (hd : t.Displaced v) : t.Displaced (Function.update v .target none) := by
  refine ⟨?_, ?_, ?_, ?_⟩
  · simpa using hd.backup
  · simp
  · simpa using hd.handoff
  · simpa [Instructed] using hd.instructed

lemma Displaced.restored (hd : t.Displaced v) {b : Bytes} (hb : v .backup = some b) :
    t.Sound (Function.update (Function.update v .backup none) .target (some b)) := by
  obtain ⟨b', hb', hgood⟩ := hd.backup
  obtain rfl : b = b' := Option.some.inj (hb.symm.trans hb')
  exact ⟨⟨b, by simp, hgood⟩, by simpa [Instructed] using hd.instructed⟩

lemma wp_restore {Q : Bool → Card → Prop} (hf : Follows t.L t.sha h) (hd : t.Displaced (t.L.view c))
    (hfail : ∀ c', t.Displaced (t.L.view c') → Q false c')
    (hdone : ∀ c', t.Sound (t.L.view c') → Q true c') :
    world.wp A t.safeOn (renameOver h.backupNro h.targetNro) Q c := by
  rw [hf.backup, hf.target]
  have hcleared : t.Displaced (t.L.view (c.erase (t.L.name .target))) := by
    rw [t.L.view_erase]
    exact hd.clear
  refine wp_renameOver ⟨.inr hd, .inr hcleared⟩ ⟨hfail _ hd, hfail _ hcleared⟩ ?_
  intro d bytes hd' hsource hfree
  refine hdone _ ?_
  rw [t.L.view_move hsource hfree]
  rcases hd' with rfl | rfl
  · exact hd.restored hsource
  · exact hcleared.restored hsource

lemma wp_putBack {Q : Unit → Card → Prop} (hf : Follows t.L t.sha h) (hd : t.Displaced (t.L.view c))
    (hQ : ∀ c', t.Safe (t.L.view c') → Q () c') : world.wp A t.safeOn (putBack h) Q c := by
  refine wp_probe (.inr hd) ?_
  have hkept : c.has h.backupNro = true := by
    obtain ⟨b, hb, _⟩ := hd.backup
    exact (c.has_eq_true _).mpr ⟨b, hf.backup ▸ hb⟩
  rw [hkept]
  refine (World.wp_bind _ _ _).mpr (wp_restore hf hd ?_ ?_)
  · exact fun c' hc' => hQ c' (.inr hc')
  · exact fun c' hc' => hQ c' (.inl hc')

lemma wp_confirm {Q : SwapOutcome → Card → Prop} (ha : t.Admits A) (hf : Follows t.L t.sha h)
    (hd : t.Displaced (t.L.view c)) (hQ : ∀ out c', t.Safe (t.L.view c') → Q out c') :
    world.wp A t.safeOn (confirm h (t.L.name .handoff)) Q c := by
  have hback : ∀ out, world.wp A t.safeOn (putBack h >>= fun _ => pure out) Q c := fun out =>
    (World.wp_bind _ _ _).mpr (wp_putBack hf hd (hQ out))
  rw [confirm, hf.target]
  refine wp_hash (.inr hd) (hback _) (fun f hA => ?_)
  cases hT : c.lookup (t.L.name .target) with
  | none => exact hback _
  | some n =>
    cases hv : digestsEqual (Sha256.of n) h.stagedSha256 with
    | false => simpa [hv] using hback _
    | true =>
      have hsha : Sha256.of n = t.sha := hf.digest ▸ (digestsEqual_iff _ _).mp hv
      have hgood : t.good n := by
        refine ha.verified f n ?_ (hd.target n hT) hsha
        simpa [hT, hsha] using hA
      have hs : t.Sound (t.L.view c) := ⟨⟨n, hT, hgood⟩, hd.instructed⟩
      simp only [Option.map_some, Option.any_some, hv, if_true]
      exact (World.wp_bind _ _ _).mpr (wp_cleanUp hf hs (fun c' hc' => hQ _ c' (.inl hc')))

lemma Displaced.update (hd : t.Displaced v) (b : Option Bytes) :
    t.Displaced (Function.update v .incoming b) := by
  refine ⟨by simpa using hd.backup, by simpa using hd.target, by simpa using hd.handoff, ?_⟩
  simpa [Instructed] using hd.instructed

lemma wp_discard {a : α} (hf : Follows t.L t.sha h) (hs : t.Safe (t.L.view c))
    (hQ : ∀ c', t.Safe (t.L.view c') → Q a c') :
    world.wp A t.safeOn (Stdio.remove (incomingNro h) >>= fun _ => pure a) Q c := by
  rw [hf.incoming]
  refine wp_remove hs (fun _ => hQ c hs) (fun _ => hQ _ ?_)
  rw [t.L.view_erase]
  exact hs.imp (fun h => h.remove (by decide)) (fun h => h.update none)

lemma Displaced.landed (hd : t.Displaced v) {n : Bytes} (hn : t.fresh n) :
    t.Displaced (Function.update (Function.update v .incoming none) .target (some n)) := by
  refine ⟨by simpa using hd.backup, by simpa using hn, by simpa using hd.handoff, ?_⟩
  simpa [Instructed] using hd.instructed

lemma wp_land {Q : SwapOutcome → Card → Prop} (ha : t.Admits A) (hf : Follows t.L t.sha h)
    (hd : t.Displaced (t.L.view c)) (hfresh : ∀ n, t.L.view c .incoming = some n → t.fresh n)
    (hQ : ∀ out c', t.Safe (t.L.view c') → Q out c') :
    world.wp A t.safeOn (land h (t.L.name .handoff)) Q c := by
  have hback : ∀ c', t.Displaced (t.L.view c') → world.wp A t.safeOn
      (putBack h >>= fun _ => Stdio.remove (incomingNro h) >>= fun _ =>
        pure (fail .ioFailed (ascii "could not move the new version into place"))) Q c' :=
    fun c' hc' => (World.wp_bind _ _ _).mpr
      (wp_putBack hf hc' (fun c₂ h₂ => wp_discard hf h₂ (hQ _)))
  have hcleared : t.Displaced (t.L.view (c.erase (t.L.name .target))) := by
    rw [t.L.view_erase]
    exact hd.clear
  refine (World.wp_bind _ _ _).mpr ?_
  rw [hf.incoming, hf.target]
  refine wp_renameOver ⟨.inr hd, .inr hcleared⟩ ⟨?_, ?_⟩ ?_
  · exact hf.incoming ▸ hback c hd
  · exact hf.incoming ▸ hback _ hcleared
  · intro d n hd' hn hfree
    refine wp_confirm ha hf ?_ hQ
    rw [t.L.view_move hn hfree]
    rcases hd' with rfl | rfl
    · exact hd.landed (hfresh n hn)
    · refine hcleared.landed (hfresh n ?_)
      simpa [Layout.view, Card.lookup_erase_eq, t.L.distinct.eq_iff] using hn

lemma Sound.displace (hs : t.Sound v) {b text : Bytes} (hb : v .target = some b)
    (hh : v .handoff = some text) :
    t.Displaced (Function.update (Function.update v .target none) .backup (some b)) := by
  obtain ⟨b', hb', hgood⟩ := hs.target
  obtain rfl : b = b' := Option.some.inj (hb.symm.trans hb')
  refine ⟨⟨b, by simp, hgood⟩, by simp, ⟨text, by simpa using hh⟩, ?_⟩
  simpa [Instructed] using hs.instructed

lemma wp_exchange {Q : SwapOutcome → Card → Prop} (ha : t.Admits A) (hf : Follows t.L t.sha h)
    (hs : t.Sound (t.L.view c)) {text : Bytes} (hh : t.L.view c .handoff = some text)
    (hfresh : ∀ n, t.L.view c .incoming = some n → t.fresh n)
    (hQ : ∀ out c', t.Safe (t.L.view c') → Q out c') :
    world.wp A t.safeOn (exchange h (t.L.name .handoff)) Q c := by
  have hpresent : c.has h.targetNro = true := by
    obtain ⟨b, hb, _⟩ := hs.target
    exact (c.has_eq_true _).mpr ⟨b, hf.target ▸ hb⟩
  have hcleared : t.L.view (c.erase (t.L.name .backup)) = Function.update (t.L.view c) .backup none :=
    t.L.view_erase
  have hs' : t.Sound (t.L.view (c.erase (t.L.name .backup))) := hcleared ▸ hs.remove (by decide)
  refine wp_probe (.inl hs) ?_
  rw [hpresent]
  refine (World.wp_bind _ _ _).mpr ?_
  rw [hf.target, hf.backup]
  refine wp_renameOver ⟨.inl hs, .inl hs'⟩ ⟨?_, ?_⟩ ?_
  · exact wp_discard hf (.inl hs) (hQ _)
  · exact wp_discard hf (.inl hs') (hQ _)
  · intro d b hd' hb hfree
    have hd : t.Displaced (t.L.view (d.move (t.L.name .target) (t.L.name .backup))) := by
      rw [t.L.view_move hb hfree]
      rcases hd' with rfl | rfl
      · exact hs.displace hb hh
      · exact hs'.displace hb (by simpa [hcleared] using hh)
    refine wp_land ha hf hd (fun n hn => hfresh n ?_) hQ
    rw [t.L.view_move hb hfree] at hn
    rcases hd' with rfl | rfl
    · simpa using hn
    · simpa [hcleared] using hn

lemma wp_bringIn {Q : SwapOutcome → Card → Prop} (ha : t.Admits A) (hf : Follows t.L t.sha h)
    (hs : t.Sound (t.L.view c)) {text : Bytes} (hh : t.L.view c .handoff = some text)
    (hQ : ∀ out c', t.Safe (t.L.view c') → Q out c') :
    world.wp A t.safeOn (bringIn h (t.L.name .handoff)) Q c := by
  rw [bringIn, hf.staged]
  refine wp_hash (.inl hs) (hQ _ _ (.inl hs)) (fun f _ => ?_)
  cases hS : c.lookup (t.L.name .staged) with
  | none => exact hQ _ _ (.inl hs)
  | some b =>
    simp only [Option.map_some]
    cases hv : digestsEqual (Sha256.of b) h.stagedSha256 with
    | false => exact hQ _ _ (.inl hs)
    | true =>
      have hsha : Sha256.of b = t.sha := hf.digest ▸ (digestsEqual_iff _ _).mp hv
      have hsound : ∀ c', Card.Agree ([Role.incoming].map t.L.name) c c' → t.Sound (t.L.view c') :=
        fun c' hc' => hs.of_agree (t.L.view_agree [.incoming] hc' (by decide)) (.inl (t.L.view_agree [.incoming] hc' (by decide)))
      refine (World.wp_bind _ _ _).mpr ?_
      rw [hf.incoming]
      refine wp_copyFile (t.L.distinct.ne (by decide)) ?_ ?_
      · intro c' hc' _
        exact ⟨.inl (hsound c' hc'), hf.incoming ▸ wp_discard hf (.inl (hsound c' hc')) (hQ _)⟩
      · intro c' n hc' hn hfaithful
        refine wp_exchange ha hf (hsound c' hc') ((t.L.view_agree [.incoming] hc' (by decide)).trans hh) ?_ hQ
        intro n' hn'
        obtain rfl : n = n' := Option.some.inj (hn.symm.trans hn')
        refine ha.copy n (fun hA => ?_)
        obtain rfl : b = n := Option.some.inj (hS.symm.trans (hfaithful hA))
        exact hsha

lemma wp_swap {Q : SwapOutcome → Card → Prop} (ha : t.Admits A) (hf : Follows t.L t.sha h)
    (hbump : ({ h with attempts := h.attempts + 1 } : Handoff).Accepted) (hs : t.Sound (t.L.view c))
    (hQ : ∀ out c', t.Safe (t.L.view c') → Q out c') :
    world.wp A t.safeOn (swap t.J h (t.L.name .handoff)) Q c := by
  have hf' : Follows t.L t.sha { h with attempts := h.attempts + 1 } :=
    ⟨hf.staged, hf.target, hf.backup, hf.digest⟩
  rw [swap]
  cases htext : serializeHandoff t.J { h with attempts := h.attempts + 1 } with
  | none => exact wp_abort (.inl hs)
  | some text =>
    refine (World.wp_bind _ _ _).mpr (wp_writeFileAtomic (t.L.temporary ▸ ha.record) ?_ ?_)
    · intro c' hc' hpath
      rw [← t.L.temporary] at hc'
      have hs' : t.Sound (t.L.view c') :=
        hs.of_agree (t.L.view_agree [.handoff, .temporary] hc' (by decide)) hpath
      exact ⟨.inl hs', hQ _ _ (.inl hs')⟩
    · intro c' hc' hpath
      rw [← t.L.temporary] at hc'
      have htarget : t.L.view c' .target = t.L.view c .target :=
        t.L.view_agree [.handoff, .temporary] hc' (by decide)
      refine wp_bringIn ha hf' ⟨htarget ▸ hs.target, ?_⟩ hpath hQ
      intro text' htext'
      obtain rfl : text = text' := Option.some.inj (hpath.symm.trans htext')
      exact ⟨_, parseHandoff_serializeHandoff hbump htext, hf'⟩

lemma wp_rollBack {Q : SwapOutcome → Card → Prop} (hf : Follows t.L t.sha h) (hr : t.Ready (t.L.view c))
    (why : Bytes) (hQ : ∀ out c', t.Safe (t.L.view c') → Q out c') :
    world.wp A t.safeOn (rollBack h (t.L.name .handoff) why) Q c := by
  have hclean : ∀ c', t.Sound (t.L.view c') → world.wp A t.safeOn
      (cleanUp h (t.L.name .handoff) >>= fun _ => pure ⟨.rolledBack, why⟩) Q c' :=
    fun c' hc' => (World.wp_bind _ _ _).mpr (wp_cleanUp hf hc' (fun c₂ h₂ => hQ _ c₂ (.inl h₂)))
  refine wp_probe hr.safe ?_
  rcases hr with hs | ⟨hd, hmissing⟩
  · have hpresent : c.has h.targetNro = true := by
      obtain ⟨b, hb, _⟩ := hs.target
      exact (c.has_eq_true _).mpr ⟨b, hf.target ▸ hb⟩
    cases c.has h.backupNro with
    | false => exact hclean c hs
    | true =>
      refine wp_probe (.inl hs) ?_
      rw [hpresent]
      exact hclean c hs
  · have hkept : c.has h.backupNro = true := by
      obtain ⟨b, hb, _⟩ := hd.backup
      exact (c.has_eq_true _).mpr ⟨b, hf.backup ▸ hb⟩
    have hgone : c.has h.targetNro = false := (c.has_eq_false _).mpr (hf.target ▸ hmissing)
    rw [hkept]
    refine wp_probe (.inr hd) ?_
    rw [hgone]
    refine (World.wp_bind _ _ _).mpr (wp_restore hf hd ?_ hclean)
    exact fun c' hc' => hQ _ c' (.inr hc')

lemma wp_restoreBackup {Q : SwapOutcome → Card → Prop} (hf : Follows t.L t.sha h)
    (hd : t.Displaced (t.L.view c)) (reason : Bytes) (hQ : ∀ out c', t.Safe (t.L.view c') → Q out c') :
    world.wp A t.safeOn (restoreBackup h (t.L.name .handoff) reason) Q c := by
  refine (World.wp_bind _ _ _).mpr (wp_restore hf hd ?_ ?_)
  · exact fun c' hc' => hQ _ c' (.inr hc')
  · exact fun c' hc' => (World.wp_bind _ _ _).mpr (wp_cleanUp hf hc' (fun c₂ h₂ => hQ _ c₂ (.inl h₂)))

lemma Ready.installed (hr : t.Ready v) : v .target ≠ none ∨ v .backup ≠ none := by
  rcases hr with hs | ⟨hd, _⟩
  · obtain ⟨b, hb, _⟩ := hs.target
    exact .inl (by simp [hb])
  · obtain ⟨b, hb, _⟩ := hd.backup
    exact .inr (by simp [hb])

lemma wp_act {Q : SwapOutcome → Card → Prop} (ha : t.Admits A) (hf : Follows t.L t.sha h)
    (haccepted : h.Accepted) (hr : t.Ready (t.L.view c)) (hQ : ∀ out c', t.Safe (t.L.view c') → Q out c') :
    world.wp A t.safeOn
      (act t.J (t.L.name .handoff) (some h) (decideRecovery (some h) (presenceOf c h))) Q c := by
  have htarget : c.has h.targetNro = (t.L.view c .target).isSome := by rw [hf.target]; rfl
  have hbackup : c.has h.backupNro = (t.L.view c .backup).isSome := by rw [hf.backup]; rfl
  have hsound : c.has h.targetNro = true → t.Sound (t.L.view c) := by
    intro hp
    rcases hr with hs | ⟨_, hmissing⟩
    · exact hs
    · simp [htarget, hmissing] at hp
  rcases decideRecovery_cases h (presenceOf c h) rfl with
    ⟨hd, _⟩ | ⟨hd, _, hp, _⟩ | ⟨hd, hp, hb, _⟩ | ⟨hd, _⟩ | ⟨hd, hbudget, hp, _⟩
  · simp only [act, hd]
    exact wp_rollBack hf hr _ hQ
  · simp only [act, hd]
    rcases hr with hs | ⟨hdisp, _⟩
    · obtain ⟨b, hb, _⟩ := hs.target
      simp [presenceOf, htarget, hb] at hp
    · exact wp_restoreBackup hf hdisp _ hQ
  · simp only [presenceOf, htarget, hbackup, Option.isSome_eq_false_iff, Option.isNone_iff_eq_none] at hp hb
    exact absurd hr.installed (by simp [hp, hb])
  · simp only [act, hd]
    exact hQ _ _ hr.safe
  · rcases hd with hd | hd <;> simp only [act, hd] <;>
      exact wp_swap ha hf (haccepted.attempt hbudget) (hsound hp) hQ

lemma wp_runSwap (ha : t.Admits A) (hsafe : t.Safe (t.L.view c))
    (hready : ∀ text h, t.L.view c .handoff = some text → parseHandoff t.J text = .ok h →
      (decideRecovery (some h) (presenceOf c h)).action ≠ .unrecoverable → t.Ready (t.L.view c)) :
    world.wp A t.safeOn (runSwap t.J (t.L.name .handoff)) (fun _ => t.safeOn) c := by
  refine wp_read hsafe hsafe ?_
  cases hraw : c.lookup (t.L.name .handoff) with
  | none => exact hsafe
  | some text =>
    have hinstructed : t.Instructed (t.L.view c) := hsafe.elim Sound.instructed Displaced.instructed
    obtain ⟨h, hparse, hf⟩ := hinstructed text hraw
    simp only [hparse]
    refine wp_probe hsafe (wp_probe hsafe (wp_probe hsafe ?_))
    by_cases hact : (decideRecovery (some h) (presenceOf c h)).action = .unrecoverable
    · change world.wp A t.safeOn (act t.J _ (some h) (decideRecovery (some h) (presenceOf c h))) _ c
      simp only [act, hact]
      exact hsafe
    · exact wp_act ha hf (parseHandoff_accepted hparse).1 (hready text h hraw hparse hact) (fun _ _ h => h)

end Runs

end Terms

end NsxManager.Forwarder
