import NsxManager.Infra.CurlClient

/-! Which response of a redirected request the tag that is kept came with. -/

namespace NsxManager.Infra.CurlClient

open NsxManager.Core Lib SelfUpdate

def field (line : Bytes) : Option (Bytes × Bytes) :=
  let text := line.rdropWhile isLineEnd
  match text.dropWhile (· != byte ':') with
  | [] => none
  | _ :: value => some (text.takeWhile (· != byte ':'), value)

def entityTag (line : Bytes) : Option Bytes :=
  ((field line).filter (fun f => f.1.map lower = ascii "etag")).map Prod.snd

def lastTag (lines : List Bytes) : Option Bytes := (lines.filterMap entityTag).getLast?

def etagOf (lines : List Bytes) : Bytes :=
  ((lastTag lines).map (fun value => (value.dropWhile isBlank).rdropWhile isBlank)).getD []

/-- A request that was redirected any number of times. libcurl hands over the complete header lines of all the
responses, and the body of the last. -/
structure Chain extends Transfer where
  earlier : List (List Bytes)
  final : List Bytes
  headers_eq : headers = earlier.flatten ++ final
  terminated : ∀ line ∈ headers, line.getLast? = some (byte '\n')

section Capture

variable {line : Bytes}

lemma lower_eq_colon {c : UInt8} (h : lower c = byte ':') : c = byte ':' := by
  rw [lower] at h
  split at h
  · next hcapital =>
    have hlow : 65 ≤ c.toNat := UInt8.le_iff_toNat_le.mp hcapital.1
    have hhigh : c.toNat ≤ 90 := UInt8.le_iff_toNat_le.mp hcapital.2
    have hsum : (c + 32).toNat = 58 := congrArg UInt8.toNat h
    rw [UInt8.toNat_add, show (32 : UInt8).toNat = 32 from rfl] at hsum
    omega
  · exact h

lemma colon_not_mem {name : Bytes} (h : name.map lower = ascii "etag") : byte ':' ∉ name := by
  intro hmem
  have hlower : byte ':' ∈ name.map lower := List.mem_map.mpr ⟨_, hmem, by decide⟩
  rw [h] at hlower
  exact absurd hlower (by decide)

lemma length_of_lower {name : Bytes} (h : name.map lower = ascii "etag") : name.length = 4 := by
  rw [← List.length_map lower, h]
  rfl

lemma entityTag_eq_some_iff {value : Bytes} : entityTag line = some value ↔
    ∃ name rest, line = name ++ byte ':' :: rest ∧ name.map lower = ascii "etag" ∧
      rest.rdropWhile isLineEnd = value := by
  have hcolon : isLineEnd (byte ':') = false := by decide
  constructor
  · intro h
    obtain ⟨⟨name, value'⟩, hfield, rfl⟩ := Option.map_eq_some_iff.mp h
    obtain ⟨hfield, hname⟩ := Option.filter_eq_some_iff.mp hfield
    rw [field] at hfield
    split at hfield
    · exact absurd hfield (by simp)
    · next hdrop =>
      obtain ⟨rfl, rfl⟩ := Prod.mk.inj (Option.some.inj hfield)
      have htext := dropWhile_ne_eq_cons hdrop
      have hline := @List.rdropWhile_append_rtakeWhile _ isLineEnd line
      generalize (line.rdropWhile isLineEnd).takeWhile (· != byte ':') = name at htext hname
      rw [htext, List.append_assoc, List.cons_append] at hline
      refine ⟨name, _, hline.symm, by simpa using hname, ?_⟩
      rw [← hline, rdropWhile_append_cons hcolon] at htext
      exact (List.cons.inj (List.append_cancel_left htext)).2
  · rintro ⟨name, rest, rfl, hname, rfl⟩
    have hbefore : ∀ c ∈ name, (c != byte ':') = true := by
      intro c hc
      exact bne_iff_ne.mpr (fun heq => colon_not_mem hname (heq ▸ hc))
    have hfield : field (name ++ byte ':' :: rest) = some (name, rest.rdropWhile isLineEnd) := by
      rw [field, rdropWhile_append_cons hcolon, List.dropWhile_append_of_pos hbefore,
        List.takeWhile_append_of_pos hbefore]
      simp
    rw [entityTag, hfield]
    simp [hname]

lemma take_eq_kEtag_iff : (line.take kEtag.length).map lower = kEtag ↔
    ∃ name rest, line = name ++ byte ':' :: rest ∧ name.map lower = ascii "etag" := by
  have hkey : kEtag = ascii "etag" ++ [byte ':'] := by decide
  constructor
  · intro h
    obtain ⟨name, colon, htake, hname, hcolon⟩ := List.map_eq_append_iff.mp (h.trans hkey)
    obtain ⟨c, rfl, hlower⟩ : ∃ c, colon = [c] ∧ lower c = byte ':' := by
      simpa using List.map_eq_cons_iff.mp hcolon
    have hc : c = byte ':' := lower_eq_colon hlower
    refine ⟨name, line.drop kEtag.length, ?_, hname⟩
    conv_lhs => rw [← List.take_append_drop kEtag.length line, htake, hc]
    simp
  · rintro ⟨name, rest, rfl, hname⟩
    have hlength : name.length = 4 := length_of_lower hname
    have htake : (name ++ byte ':' :: rest).take kEtag.length = name ++ [byte ':'] := by
      rw [show kEtag.length = name.length + 1 by rw [hlength]; rfl, List.take_length_add_append]
      rfl
    rw [htake, List.map_append, hname]
    decide

lemma headerValue_eq (value : Bytes) : headerValue value = (value.rdropWhile isLineEnd).dropWhile isBlank :=
  (dropWhile_rdropWhile value).symm

lemma captureHeader_eq (hline : line.getLast? = some (byte '\n')) (etag : Bytes) :
    captureHeader etag line = ((entityTag line).map (·.dropWhile isBlank)).getD etag := by
  cases htag : entityTag line with
  | some value =>
    obtain ⟨name, rest, rfl, hname, rfl⟩ := entityTag_eq_some_iff.mp htag
    have hlength : name.length = 4 := length_of_lower hname
    have hrest : rest ≠ [] := by
      rintro rfl
      rw [List.getLast?_concat] at hline
      exact absurd (Option.some.inj hline) (by decide)
    have hlong : kEtag.length < (name ++ byte ':' :: rest).length := by
      rw [List.length_append, List.length_cons, hlength, show kEtag.length = 5 from rfl]
      have := List.length_pos_iff.mpr hrest
      omega
    have hdrop : (name ++ byte ':' :: rest).drop kEtag.length = rest := by
      rw [show kEtag.length = name.length + 1 by rw [hlength]; rfl, List.drop_length_add_append]
      rfl
    rw [captureHeader, if_pos ⟨hlong, take_eq_kEtag_iff.mpr ⟨name, rest, rfl, hname⟩⟩, hdrop, headerValue_eq]
    rfl
  | none =>
    refine if_neg (fun h => ?_)
    obtain ⟨name, rest, hsplit, hname⟩ := take_eq_kEtag_iff.mp h.2
    exact absurd (entityTag_eq_some_iff.mpr ⟨name, rest, hsplit, hname, rfl⟩) (by simp [htag])

lemma lastTag_append (lines lines' : List Bytes) : lastTag (lines ++ lines') = (lastTag lines').or (lastTag lines) := by
  rw [lastTag, List.filterMap_append, List.getLast?_append, lastTag, lastTag]

lemma foldl_captureHeader {lines : List Bytes} (hlines : ∀ line ∈ lines, line.getLast? = some (byte '\n')) :
    lines.foldl captureHeader [] = ((lastTag lines).map (·.dropWhile isBlank)).getD [] := by
  induction lines using List.reverseRecOn with
  | nil => rfl
  | append_singleton lines line ih =>
    have hbefore := ih (fun l hl => hlines l (List.mem_append_left _ hl))
    have hsole : lastTag [line] = entityTag line := by
      rw [lastTag, List.filterMap_cons]
      cases entityTag line <;> rfl
    rw [List.foldl_append, List.foldl_cons, List.foldl_nil, hbefore, captureHeader_eq (hlines line (by simp)),
      lastTag_append, hsole]
    cases entityTag line <;> rfl

lemma rdropWhile_blank_eq_iff (value : Bytes) :
    value.dropWhile isBlank = (value.dropWhile isBlank).rdropWhile isBlank ↔
      value.all isBlank = true ∨ ∀ c ∈ value.getLast?, isBlank c = false := by
  have hsplit := @List.takeWhile_append_dropWhile _ isBlank value
  rw [eq_comm, List.rdropWhile_eq_self_iff]
  cases hstarted : value.dropWhile isBlank with
  | nil =>
    have hall : value.all isBlank = true := List.all_eq_true.mpr (List.dropWhile_eq_nil_iff.mp hstarted)
    exact iff_of_true (fun h => absurd rfl h) (.inl hall)
  | cons c rest =>
    have hsome : ¬value.all isBlank = true := by
      rw [List.all_eq_true, ← List.dropWhile_eq_nil_iff, hstarted]
      exact List.cons_ne_nil c rest
    have hlast : value.getLast? = some ((c :: rest).getLast (List.cons_ne_nil c rest)) := by
      rw [← hsplit, hstarted, List.getLast?_append, List.getLast?_eq_some_getLast (List.cons_ne_nil c rest)]
      rfl
    rw [or_iff_right hsome, hlast]
    simp

end Capture

namespace Chain

variable (chain : Chain)

def KeepsTag : Prop :=
  (∀ value ∈ lastTag chain.final, value.all isBlank = true ∨ ∀ c ∈ value.getLast?, isBlank c = false) ∧
    (lastTag chain.final = none → ∀ value ∈ lastTag chain.earlier.flatten, value.all isBlank = true)

end Chain

theorem etag_is_of_the_document_iff (url ifNoneMatch : Bytes) (maxBytes : UInt64) (initialised : Bool) (chain : Chain)
    (response : Response)
    (hget : get url maxBytes ifNoneMatch initialised (fun _ _ => chain.toTransfer) = .ok response) :
    response.etag = etagOf chain.final ↔ chain.KeepsTag := by
  have hetag : response.etag = chain.headers.foldl captureHeader [] := by
    rw [get] at hget
    split at hget
    · exact absurd hget (by simp)
    · split at hget
      · exact absurd hget (by simp)
      · dsimp only at hget
        split at hget
        · exact absurd hget (by simp)
        · split at hget
          · exact absurd hget (by simp)
          · rw [← Except.ok.inj hget]
  rw [hetag, foldl_captureHeader chain.terminated, chain.headers_eq, lastTag_append, etagOf, Chain.KeepsTag]
  cases lastTag chain.final with
  | some value =>
    simp only [Option.some_or, Option.map_some, Option.getD_some, Option.mem_some_iff, forall_eq', reduceCtorEq,
      false_implies, and_true]
    exact rdropWhile_blank_eq_iff value
  | none =>
    cases lastTag chain.earlier.flatten with
    | none => simp
    | some value => simp [List.dropWhile_eq_nil_iff, List.all_eq_true]

namespace Sample

def hop : Bytes := ascii "ETag: \"a\"\r\n"

def chain (final : List Bytes) (h : ∀ line ∈ final, line.getLast? = some (byte '\n')) : Chain where
  headers := hop :: final
  chunks := []
  counted := by decide
  code := .ok
  verifyResult := none
  status := 200
  earlier := [[hop]]
  final := final
  headers_eq := rfl
  terminated := List.forall_mem_cons.mpr ⟨by decide, h⟩

end Sample

theorem document_with_a_tag_keeps_its_own : ∃ response, get (ascii "https://a") 100 [] true
      (fun _ _ => (Sample.chain [ascii "etag: \"b\"\r\n"] (by decide)).toTransfer) = .ok response ∧
    response.etag = ascii "\"b\"" := by
  refine ⟨⟨200, [], ascii "\"b\""⟩, by decide, ?_⟩
  refine (etag_is_of_the_document_iff (ascii "https://a") [] 100 true (Sample.chain [ascii "etag: \"b\"\r\n"] (by decide))
    _ (by decide)).mpr ⟨?_, ?_⟩
  · decide +kernel
  · decide +kernel

theorem document_without_a_tag_gets_an_earlier_one : ∃ response, get (ascii "https://a") 100 [] true
      (fun _ _ => (Sample.chain [ascii "content-length: 0\r\n"] (by decide)).toTransfer) = .ok response ∧
    response.etag = ascii "\"a\"" ∧ etagOf [ascii "content-length: 0\r\n"] = [] := by
  exact ⟨⟨200, [], ascii "\"a\""⟩, by decide, by decide, by decide⟩

end NsxManager.Infra.CurlClient
