import NsxManager.Card
import NsxManager.Core.Sha256
import NsxManager.Lib.Program

/-! The C library's file functions over the card, one request per call. -/

namespace NsxManager

open NsxManager.Core Lib

inductive FileOp where
  /-- Opened for reading and closed again, only to see whether it is there. -/
  | probe (path : Bytes)
  | open (path : Bytes)
  | read (path : Bytes)
  | hash (path : Bytes)
  | create (path : Bytes)
  | append (path data : Bytes)
  | flush (path : Bytes)
  | remove (path : Bytes)
  | rename (source destination : Bytes)
  /-- An exception nothing catches. -/
  | abort
  deriving DecidableEq

def FileOp.Spares (p : Bytes) : FileOp → Prop
  | .create q => q ≠ p
  | .append q _ => q ≠ p
  | .remove q => q ≠ p
  | .rename source destination => source ≠ p ∧ destination ≠ p
  | _ => True

def FileOp.paths : FileOp → List Bytes
  | .probe p | .open p | .read p | .hash p | .create p | .append p _ | .flush p | .remove p => [p]
  | .rename source destination => [source, destination]
  | .abort => []

lemma FileOp.spares_of_notMem {p : Bytes} {e : FileOp} (h : p ∉ e.paths) : e.Spares p := by
  cases e <;> simp_all [Spares, paths, eq_comm]

def FileOp.Reply : FileOp → Type
  | .read _ => Option Bytes
  | .hash _ => Option Digest
  | .abort => Empty
  | _ => Bool

/-- What the environment does with a request: carry it out, report failure after so many bytes, lose
power after so many bytes, or report success having written other bytes. -/
inductive Fate where
  | ok
  | fails (written : ℕ)
  | torn (written : ℕ)
  | corrupt (bytes : Bytes)
  deriving DecidableEq

def Fate.failing : Fate → Bool
  | .fails _ => true
  | _ => false

abbrev FileProgram (α : Type) := Program FileOp FileOp.Reply α

namespace Stdio

def extend (c : Card) (path data : Bytes) : Card :=
  c.insert path ((c.lookup path).getD [] ++ data)

section Extend

variable {c : Card}

lemma lookup_extend (path data q : Bytes) : (extend c path data).lookup q =
    if q = path then some ((c.lookup path).getD [] ++ data) else c.lookup q :=
  c.lookup_insert_eq path q _

lemma lookup_extended {path old : Bytes} (data : Bytes) (hold : c.lookup path = some old) :
    (extend c path data).lookup path = some (old ++ data) := by
  simp [lookup_extend, hold]

end Extend

def perform : (e : FileOp) → Card → Option e.Reply × Card
  | .probe path, c => (some (c.has path), c)
  | .open path, c => (some (c.has path), c)
  | .read path, c => (some (c.lookup path), c)
  | .hash path, c => (some ((c.lookup path).map Sha256.of), c)
  | .create path, c => (some true, c.insert path [])
  | .append path data, c => (some true, extend c path data)
  | .flush _, c => (some true, c)
  | .remove path, c => (some (c.has path), c.erase path)
  | .rename source destination, c =>
    (some (c.has source && !c.has destination), c.move source destination)
  | .abort, c => (none, c)

/-- A failed request changes nothing but the file it was appending to. Here a probe is never wrong; on a
`fallible` card it may be. -/
def refuse : (e : FileOp) → ℕ → Card → Option e.Reply × Card
  | .probe path, _, c => (some (c.has path), c)
  | .read _, _, c => (some none, c)
  | .hash _, _, c => (some none, c)
  | .append path data, n, c => (some false, extend c path (data.take n))
  | .open _, _, c => (some false, c)
  | .create _, _, c => (some false, c)
  | .flush _, _, c => (some false, c)
  | .remove _, _, c => (some false, c)
  | .rename _ _, _, c => (some false, c)
  | .abort, _, c => (none, c)

/-- Removals and renames are atomic: power is lost before them or after them. -/
def tear : FileOp → ℕ → Card → Card
  | .append path data, n, c => extend c path (data.take n)
  | _, _, c => c

def falsify : (e : FileOp) → Bytes → Card → Option e.Reply × Card
  | .append path _, bytes, c => (some true, extend c path bytes)
  | e, _, c => perform e c

def step (e : FileOp) (fate : Fate) (c : Card) : Option e.Reply × Card :=
  match fate with
  | .ok => perform e c
  | .fails n => refuse e n c
  | .torn n => (none, tear e n c)
  | .corrupt bytes => falsify e bytes c

def probe (path : Bytes) : FileProgram Bool := .call (.probe path) .done

def openRead (path : Bytes) : FileProgram Bool := .call (.open path) .done

def read (path : Bytes) : FileProgram (Option Bytes) := .call (.read path) .done

def hash (path : Bytes) : FileProgram (Option Digest) := .call (.hash path) .done

def create (path : Bytes) : FileProgram Bool := .call (.create path) .done

def append (path data : Bytes) : FileProgram Bool := .call (.append path data) .done

def flush (path : Bytes) : FileProgram Bool := .call (.flush path) .done

def remove (path : Bytes) : FileProgram Bool := .call (.remove path) .done

def rename (source destination : Bytes) : FileProgram Bool := .call (.rename source destination) .done

def abort {α : Type} : FileProgram α := .call .abort (fun impossible => nomatch impossible)

def promote (written : Bool) (path tmp : Bytes) : FileProgram Bool := do
  let flushed ← flush tmp
  if !written || !flushed then
    let _ ← remove tmp
    return false
  let _ ← remove path
  let renamed ← rename tmp path
  if !renamed then
    let _ ← remove tmp
    return false
  return true

def world : World FileOp FileOp.Reply Fate Card := ⟨step⟩

/-- The look at a file opens it, so it may fail as well, and then it finds nothing. -/
def stepFallible : (e : FileOp) → Fate → Card → Option e.Reply × Card
  | .probe _, .fails _, c => (some false, c)
  | e, fate, c => step e fate c

def fallible : World FileOp FileOp.Reply Fate Card := ⟨stepFallible⟩

def cString (path : Bytes) : Bytes := path.takeWhile (· ≠ 0)

/-- The file a path leads to: it is handed over as a C string, and the file system makes of that
what it will. -/
def file (names : Bytes → Bytes) (path : Bytes) : Bytes := names (cString path)

def stepNamed (names : Bytes → Bytes) : (e : FileOp) → Fate → Card → Option e.Reply × Card
  | .probe path, fate, c => step (.probe (file names path)) fate c
  | .open path, fate, c => step (.open (file names path)) fate c
  | .read path, fate, c => step (.read (file names path)) fate c
  | .hash path, fate, c => step (.hash (file names path)) fate c
  | .create path, fate, c => step (.create (file names path)) fate c
  | .append path data, fate, c => step (.append (file names path) data) fate c
  | .flush path, fate, c => step (.flush (file names path)) fate c
  | .remove path, fate, c => step (.remove (file names path)) fate c
  | .rename source destination, fate, c =>
    step (.rename (file names source) (file names destination)) fate c
  | .abort, fate, c => step .abort fate c

def named (names : Bytes → Bytes) : World FileOp FileOp.Reply Fate Card := ⟨stepNamed names⟩

def Faithful (A : Event FileOp FileOp.Reply Fate → Prop) (path : Bytes) : Prop :=
  ∀ data bytes, ¬A ⟨.append path data, .corrupt bytes, true⟩

section Rules

variable {α : Type} {A : Event FileOp FileOp.Reply Fate → Prop} {C : Card → Prop}
  {Q : α → Card → Prop} {c : Card} {p q data : Bytes}

lemma wp_probe {k : Bool → FileProgram α} (hC : C c) (hk : world.wp A C (k (c.has p)) Q c) :
    world.wp A C (probe p >>= k) Q c := by
  refine (World.wp_call _ _).mpr ⟨hC, fun f => ?_⟩
  cases f with
  | torn n => exact hC
  | _ => exact fun _ => hk

lemma wp_open {k : Bool → FileProgram α} (hC : C c) (hfail : world.wp A C (k false) Q c)
    (hk : world.wp A C (k (c.has p)) Q c) : world.wp A C (openRead p >>= k) Q c := by
  refine (World.wp_call _ _).mpr ⟨hC, fun f => ?_⟩
  cases f with
  | torn n => exact hC
  | fails n => exact fun _ => hfail
  | _ => exact fun _ => hk

lemma wp_read {k : Option Bytes → FileProgram α} (hC : C c) (hfail : world.wp A C (k none) Q c)
    (hk : world.wp A C (k (c.lookup p)) Q c) : world.wp A C (read p >>= k) Q c := by
  refine (World.wp_call _ _).mpr ⟨hC, fun f => ?_⟩
  cases f with
  | torn n => exact hC
  | fails n => exact fun _ => hfail
  | _ => exact fun _ => hk

lemma wp_hash {k : Option Digest → FileProgram α} (hC : C c) (hfail : world.wp A C (k none) Q c)
    (hk : ∀ f, A ⟨.hash p, f, (c.lookup p).map Sha256.of⟩ →
      world.wp A C (k ((c.lookup p).map Sha256.of)) Q c) : world.wp A C (hash p >>= k) Q c := by
  refine (World.wp_call _ _).mpr ⟨hC, fun f => ?_⟩
  cases f with
  | torn n => exact hC
  | fails n => exact fun _ => hfail
  | _ => exact hk _

lemma wp_create {k : Bool → FileProgram α} (hC : C c) (hfail : world.wp A C (k false) Q c)
    (hk : world.wp A C (k true) Q (c.insert p [])) : world.wp A C (create p >>= k) Q c := by
  refine (World.wp_call _ _).mpr ⟨hC, fun f => ?_⟩
  cases f with
  | torn n => exact hC
  | fails n => exact fun _ => hfail
  | _ => exact fun _ => hk

lemma wp_append {k : Bool → FileProgram α} (hC : C c) (htorn : ∀ bytes, bytes <+: data → C (extend c p bytes))
    (hfail : ∀ bytes, bytes <+: data → world.wp A C (k false) Q (extend c p bytes))
    (hk : ∀ bytes, (Faithful A p → bytes = data) → world.wp A C (k true) Q (extend c p bytes)) :
    world.wp A C (append p data >>= k) Q c := by
  refine (World.wp_call _ _).mpr ⟨hC, fun f => ?_⟩
  cases f with
  | ok => exact fun _ => hk data (fun _ => rfl)
  | fails n => exact fun _ => hfail _ (data.take_prefix n)
  | torn n => exact htorn _ (data.take_prefix n)
  | corrupt bytes => exact fun hA => hk bytes (fun h => absurd hA (h data bytes))

lemma wp_flush {k : Bool → FileProgram α} (hC : C c) (hk : ∀ ok, world.wp A C (k ok) Q c) :
    world.wp A C (flush p >>= k) Q c := by
  refine (World.wp_call _ _).mpr ⟨hC, fun f => ?_⟩
  cases f with
  | torn n => exact hC
  | _ => exact fun _ => hk _

lemma wp_remove {k : Bool → FileProgram α} (hC : C c) (hfail : ∀ ok, world.wp A C (k ok) Q c)
    (hk : ∀ ok, world.wp A C (k ok) Q (c.erase p)) : world.wp A C (remove p >>= k) Q c := by
  refine (World.wp_call _ _).mpr ⟨hC, fun f => ?_⟩
  cases f with
  | torn n => exact hC
  | fails n => exact fun _ => hfail _
  | _ => exact fun _ => hk _

lemma wp_rename {k : Bool → FileProgram α} (hC : C c) (hfail : world.wp A C (k false) Q c)
    (hk : ∀ bytes, c.lookup p = some bytes → c.lookup q = none →
      world.wp A C (k true) Q (c.move p q)) : world.wp A C (rename p q >>= k) Q c := by
  have hok : world.wp A C (k (c.has p && !c.has q)) Q (c.move p q) := by
    cases hp : c.lookup p with
    | none => simpa [Card.has, hp, c.move_of_missing q hp] using hfail
    | some bytes =>
      cases hq : c.lookup q with
      | none => simpa [Card.has, hp, hq] using hk bytes hp hq
      | some old => simpa [Card.has, hp, hq, c.move_onto q p (by simp [Card.has, hq])] using hfail
  refine (World.wp_call _ _).mpr ⟨hC, fun f => ?_⟩
  cases f with
  | torn n => exact hC
  | fails n => exact fun _ => hfail
  | _ => exact fun _ => hok

lemma wp_abort (hC : C c) : world.wp A C abort Q c := by
  refine (World.wp_call _ _).mpr ⟨hC, fun f => ?_⟩
  cases f <;> exact hC

lemma wp_promote {path tmp : Bytes} {written : Bool} {Q : Bool → Card → Prop} {d : Card} (hne : path ≠ tmp)
    (hagree : Card.Agree [path, tmp] c d) (hpath : d.lookup path = c.lookup path)
    (htmp : written = true → d.lookup tmp = some data)
    (hstop : ∀ c', Card.Agree [path, tmp] c c' →
      (c'.lookup path = c.lookup path ∨ c'.lookup path = none) → C c' ∧ Q false c')
    (hdone : ∀ c', Card.Agree [path, tmp] c c' → c'.lookup path = some data → Q true c') :
    world.wp A C (promote written path tmp) Q d := by
  have hgivenUp : ∀ d, Card.Agree [path, tmp] c d → (d.lookup path = c.lookup path ∨ d.lookup path = none) →
      world.wp A C (remove tmp >>= fun _ => pure false) Q d := by
    intro d hagree hpath
    have hgone := hstop (d.erase tmp) (hagree.erase (by simp))
      (by rwa [Card.lookup_erase_eq, if_neg hne])
    exact wp_remove (hstop d hagree hpath).1 (fun _ => (hstop d hagree hpath).2) (fun _ => hgone.2)
  have hrename : ∀ d, Card.Agree [path, tmp] c d → (d.lookup path = c.lookup path ∨ d.lookup path = none) →
      d.lookup tmp = some data → world.wp A C (rename tmp path >>= fun renamed =>
        if !renamed then remove tmp >>= fun _ => pure false else pure true) Q d := by
    intro d hagree hpath htmp
    refine wp_rename (hstop d hagree hpath).1 (hgivenUp d hagree hpath) (fun bytes hbytes hfree => ?_)
    obtain rfl : data = bytes := Option.some.inj (htmp.symm.trans hbytes)
    exact hdone _ (hagree.move (by simp) (by simp)) (by rw [d.lookup_move _ htmp hfree, if_pos rfl])
  refine wp_flush (hstop _ hagree (.inl hpath)).1 (fun flushed => ?_)
  cases written with
  | false => exact hgivenUp _ hagree (.inl hpath)
  | true =>
    cases flushed with
    | false => exact hgivenUp _ hagree (.inl hpath)
    | true =>
      refine wp_remove (hstop _ hagree (.inl hpath)).1
        (fun _ => hrename _ hagree (.inl hpath) (htmp rfl)) (fun _ => hrename _ (hagree.erase (by simp)) ?_ ?_)
      · exact .inr (by rw [Card.lookup_erase_eq, if_pos rfl])
      · rw [Card.lookup_erase_eq, if_neg hne.symm, htmp rfl]

end Rules

section Frames

variable {c c' : Card} {p : Bytes} {e : FileOp} {fate : Fate}

lemma lookup_step (h : e.Spares p) : (step e fate c).2.lookup p = c.lookup p := by
  cases e with
  | create q =>
    have hne : p ≠ q := Ne.symm h
    cases fate <;> simp [step, perform, refuse, tear, falsify, hne]
  | append q data =>
    have hne : p ≠ q := Ne.symm h
    cases fate <;> simp [step, perform, refuse, tear, falsify, extend, hne]
  | remove q =>
    have hne : p ≠ q := Ne.symm h
    cases fate <;> simp [step, perform, refuse, tear, falsify, hne]
  | rename source destination =>
    have hmove := c.lookup_move_of_ne p (Ne.symm h.1) (Ne.symm h.2)
    cases fate <;> simp [step, perform, refuse, tear, falsify, hmove]
  | _ => cases fate <;> rfl

lemma lookup_exec {α : Type} {prog : FileProgram α} (h : prog.Asks (FileOp.Spares p)) (fates : List Fate) :
    (world.exec prog fates c).state.lookup p = c.lookup p :=
  World.exec_invariant (I := fun c' : Card => c'.lookup p = c.lookup p)
    (World.wp_of_asks h rfl (fun _ _ _ hs hI => (lookup_step hs).trans hI))

lemma step_remove {r : Bool} (h : world.step (.remove p) fate c = (some r, c')) :
    r = c.has p ∧ c' = c.erase p ∨ r = false ∧ c' = c := by
  cases fate with
  | ok => exact .inl ⟨(Option.some.inj (congrArg Prod.fst h)).symm, (congrArg Prod.snd h).symm⟩
  | fails n => exact .inr ⟨(Option.some.inj (congrArg Prod.fst h)).symm, (congrArg Prod.snd h).symm⟩
  | torn n => cases congrArg Prod.fst h
  | corrupt bytes => exact .inl ⟨(Option.some.inj (congrArg Prod.fst h)).symm, (congrArg Prod.snd h).symm⟩

lemma step_rename {q : Bytes} {r : Bool} (h : world.step (.rename p q) fate c = (some r, c')) :
    r = (c.has p && !c.has q) ∧ c' = c.move p q ∨ r = false ∧ c' = c := by
  cases fate with
  | ok => exact .inl ⟨(Option.some.inj (congrArg Prod.fst h)).symm, (congrArg Prod.snd h).symm⟩
  | fails n => exact .inr ⟨(Option.some.inj (congrArg Prod.fst h)).symm, (congrArg Prod.snd h).symm⟩
  | torn n => cases congrArg Prod.fst h
  | corrupt bytes => exact .inl ⟨(Option.some.inj (congrArg Prod.fst h)).symm, (congrArg Prod.snd h).symm⟩

lemma has_remove {r : Bool} (h : world.step (.remove p) fate c = (some r, c')) :
    (r = true → c.has p = true) ∧ (c'.has p = true ↔ c.has p = true ∧ r = false) ∧
      ∀ q, q ≠ p → c'.lookup q = c.lookup q := by
  rcases step_remove h with ⟨rfl, rfl⟩ | ⟨rfl, rfl⟩
  · have hgone : Card.has (c.erase p) p = false := by simp [Card.has]
    exact ⟨id, by simp [hgone], fun q hq => AList.lookup_erase_ne hq⟩
  · simp

lemma has_rename {q : Bytes} {r : Bool} (hne : p ≠ q) (h : world.step (.rename p q) fate c = (some r, c')) :
    (c'.has q = true ↔ c.has q = true ∨ r = true) ∧ (c'.has p = true ↔ c.has p = true ∧ r = false) ∧
      ∀ s, s ≠ p → s ≠ q → c'.lookup s = c.lookup s := by
  rcases step_rename h with ⟨rfl, rfl⟩ | ⟨rfl, rfl⟩
  · refine ⟨?_, ?_, fun s hp hq => c.lookup_move_of_ne s hp hq⟩ <;>
      cases hp : c.lookup p <;> cases hq : c.lookup q <;>
      simp [Card.has, hp, hq, Card.move, hne]
  · simp

end Frames

section Faultless

variable {α : Type} (c : Card) (p q data : Bytes)

@[simp] lemma run_probe (k : Bool → FileProgram α) :
    world.run .ok (probe p >>= k) c = world.run .ok (k (c.has p)) c := rfl

@[simp] lemma run_open (k : Bool → FileProgram α) :
    world.run .ok (openRead p >>= k) c = world.run .ok (k (c.has p)) c := rfl

@[simp] lemma run_read (k : Option Bytes → FileProgram α) :
    world.run .ok (read p >>= k) c = world.run .ok (k (c.lookup p)) c := rfl

@[simp] lemma run_hash (k : Option Digest → FileProgram α) :
    world.run .ok (hash p >>= k) c = world.run .ok (k ((c.lookup p).map Sha256.of)) c := rfl

@[simp] lemma run_create (k : Bool → FileProgram α) :
    world.run .ok (create p >>= k) c = world.run .ok (k true) (c.insert p []) := rfl

@[simp] lemma run_append (k : Bool → FileProgram α) :
    world.run .ok (append p data >>= k) c = world.run .ok (k true) (extend c p data) := rfl

@[simp] lemma run_flush (k : Bool → FileProgram α) :
    world.run .ok (flush p >>= k) c = world.run .ok (k true) c := rfl

@[simp] lemma run_remove (k : Bool → FileProgram α) :
    world.run .ok (remove p >>= k) c = world.run .ok (k (c.has p)) (c.erase p) := rfl

@[simp] lemma run_rename (k : Bool → FileProgram α) :
    world.run .ok (rename p q >>= k) c = world.run .ok (k (c.has p && !c.has q)) (c.move p q) := rfl

end Faultless

section Fallible

variable {c c' : Card} {p : Bytes} {e : FileOp} {fate : Fate}

lemma fallible_step (h : (∀ p, e ≠ .probe p) ∨ fate.failing = false) :
    fallible.step e fate c = world.step e fate c := by
  cases e with
  | probe p => cases fate <;> simp_all [Fate.failing] <;> rfl
  | _ => cases fate <;> rfl

lemma fallible_probe {r : Bool} (h : fallible.step (.probe p) fate c = (some r, c')) :
    r = (c.has p && !fate.failing) ∧ c' = c := by
  cases fate with
  | torn n => cases congrArg Prod.fst h
  | fails n =>
    obtain rfl : false = r := Option.some.inj (congrArg Prod.fst h)
    exact ⟨by simp [Fate.failing], (congrArg Prod.snd h).symm⟩
  | _ =>
    obtain rfl : c.has p = r := Option.some.inj (congrArg Prod.fst h)
    exact ⟨by simp [Fate.failing], (congrArg Prod.snd h).symm⟩

lemma lookup_exec_fallible {α : Type} {prog : FileProgram α} (h : prog.Asks (FileOp.Spares p)) (fates : List Fate) :
    (fallible.exec prog fates c).state.lookup p = c.lookup p := by
  refine World.exec_invariant (I := fun c' : Card => c'.lookup p = c.lookup p)
    (World.wp_of_asks h rfl (fun e fate c₁ hs hI => ?_))
  have hsame : (fallible.step e fate c₁).2 = (step e fate c₁).2 := by
    cases e with
    | probe q => cases fate <;> rfl
    | _ => cases fate <;> rfl
  rw [hsame, lookup_step hs, hI]

end Fallible

section Named

variable {α : Type} (names : Bytes → Bytes) (c : Card) (p q data : Bytes)

@[simp] lemma run_named_probe (k : Bool → FileProgram α) : (named names).run .ok (probe p >>= k) c =
    (named names).run .ok (k (c.has (file names p))) c := rfl

@[simp] lemma run_named_open (k : Bool → FileProgram α) : (named names).run .ok (openRead p >>= k) c =
    (named names).run .ok (k (c.has (file names p))) c := rfl

@[simp] lemma run_named_read (k : Option Bytes → FileProgram α) : (named names).run .ok (read p >>= k) c =
    (named names).run .ok (k (c.lookup (file names p))) c := rfl

@[simp] lemma run_named_hash (k : Option Digest → FileProgram α) : (named names).run .ok (hash p >>= k) c =
    (named names).run .ok (k ((c.lookup (file names p)).map Sha256.of)) c := rfl

@[simp] lemma run_named_create (k : Bool → FileProgram α) : (named names).run .ok (create p >>= k) c =
    (named names).run .ok (k true) (c.insert (file names p) []) := rfl

@[simp] lemma run_named_append (k : Bool → FileProgram α) : (named names).run .ok (append p data >>= k) c =
    (named names).run .ok (k true) (extend c (file names p) data) := rfl

@[simp] lemma run_named_flush (k : Bool → FileProgram α) : (named names).run .ok (flush p >>= k) c =
    (named names).run .ok (k true) c := rfl

@[simp] lemma run_named_remove (k : Bool → FileProgram α) : (named names).run .ok (remove p >>= k) c =
    (named names).run .ok (k (c.has (file names p))) (c.erase (file names p)) := rfl

@[simp] lemma run_named_rename (k : Bool → FileProgram α) : (named names).run .ok (rename p q >>= k) c =
    (named names).run .ok (k (c.has (file names p) && !c.has (file names q)))
      (c.move (file names p) (file names q)) := rfl

lemma named_step {e : FileOp} (h : ∀ p ∈ e.paths, file names p = p) : (named names).step e = world.step e := by
  funext fate c
  cases e with
  | abort => rfl
  | rename source destination =>
    simp only [named, stepNamed]
    rw [h source (by simp [FileOp.paths]), h destination (by simp [FileOp.paths])]
    rfl
  | append p data | _ p =>
    simp only [named, stepNamed]
    rw [h p (by simp [FileOp.paths])]
    rfl

end Named

end Stdio

end NsxManager
