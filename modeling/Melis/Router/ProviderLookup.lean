import Melis.Router.Contacts

/-!
# The configuration of a selected provider (`router.rs`)

A route names a provider by the `id` of a configured one, or by a provider type. The
handler takes the first configured provider that the name fits in either way.

* `find?_or_eq_iff`: a first match over two keys against one over the first key.
* `prefersId_iff`: when calls are made with the settings of the provider named.
* `other_vendor_called`: a request for one vendor goes to another.
-/

namespace Melis.Router

/-- A match over two keys finds what the first key alone finds exactly if the second
    key fits nothing before it. -/
theorem find?_or_eq_iff {α : Type*} {p q : α → Bool} {xs : List α} {x : α}
    (h : xs.find? p = some x) :
    xs.find? (fun y => p y || q y) = some x ↔ ∀ y ∈ xs.takeWhile (!p ·), q y = false := by
  induction xs with
  | nil => cases h
  | cons y xs ih =>
    cases hy : p y with
    | true =>
      rw [List.find?_cons_of_pos hy] at h
      simp [hy, h]
    | false =>
      rw [List.find?_cons_of_neg (by simp [hy])] at h
      rw [List.takeWhile_cons_of_pos (by simp [hy]), List.forall_mem_cons]
      cases hqy : q y with
      | true =>
        have hne : y ≠ x := by
          rintro rfl
          rw [List.find?_some h] at hy
          cases hy
        simp [hy, hqy, hne]
      | false => simp [hy, hqy, ih h]

/-- A match over two keys that fits the first key is the first one to fit it. -/
theorem find?_of_find?_or {α : Type*} {p q : α → Bool} {xs : List α} {x : α}
    (h : xs.find? (fun y => p y || q y) = some x) (hx : p x = true) : xs.find? p = some x := by
  obtain ⟨-, pre, post, rfl, hpre⟩ := List.find?_eq_some_iff_append.mp h
  refine List.find?_eq_some_iff_append.mpr ⟨hx, pre, post, rfl, fun y hy => ?_⟩
  have hboth := hpre y hy
  simp only [Bool.not_eq_true', Bool.or_eq_false_iff] at hboth
  simpa using hboth.1

/-- The first configured provider whose `id` is the name. -/
def firstWithId (providers : List ProviderConfig) (name : String) : Option ProviderConfig :=
  providers.find? fun p => p.id == name

/-- No provider listed before the first one with the `id` has the name for its
    type. -/
def NoTypeBeforeId (providers : List ProviderConfig) (name : String) : Prop :=
  (∃ p ∈ providers, p.id = name) →
    ∀ q ∈ providers.takeWhile fun q => q.id != name, q.providerType ≠ name

instance (providers : List ProviderConfig) (name : String) :
    Decidable (NoTypeBeforeId providers name) :=
  inferInstanceAs (Decidable (_ → _))

/-- The name stands for an `id` first. If there is a provider with that `id`, every
    call for the name is made with the base URL, API key, type and timeout of the
    first one. What is found for its type alone is found only if there is none. -/
structure PrefersId (config : GatewayConfig) (name : String) : Prop where
  byId : ∀ p, firstWithId config.providers name = some p →
    ∀ (G : Gateway) (env : ℕ → Surroundings) (req : ChatRequest) (shared : Shared),
      G.config = config →
      ∀ a ∈ (chatCompletions G env req shared).1.attempts, a.selected.name = name →
        ∀ c, a.contact = some c → c.endpoint = endpointOf (some p) ∧
          ∃ token, buildRequest (G.job req) (endpointOf (some p)) token = .ok c.request
  byType : ∀ q, findProvider config name = some q → q.id ≠ name →
    firstWithId config.providers name = none

section Lookup

variable {config : GatewayConfig} {name : String} {p : ProviderConfig}

theorem noTypeBeforeId_iff (hp : firstWithId config.providers name = some p) :
    NoTypeBeforeId config.providers name ↔ findProvider config name = some p := by
  have hid : ∃ p ∈ config.providers, p.id = name :=
    ⟨p, List.mem_of_find?_eq_some hp, by simpa using List.find?_some hp⟩
  rw [findProvider, find?_or_eq_iff (q := fun p => p.providerType == name) hp, NoTypeBeforeId,
    forall_prop_of_true hid]
  simp only [beq_eq_false_iff_ne, bne]

/-- Without a provider of that `id`, none comes before it. -/
theorem noTypeBeforeId_of_none (hnone : firstWithId config.providers name = none) :
    NoTypeBeforeId config.providers name := by
  rintro ⟨p, hp, hid⟩
  exact absurd hid (by simpa using List.find?_eq_none.mp hnone p hp)

/-- **Provider lookup.** A name stands for an `id` first exactly if no provider listed
    before the first one with that `id` has the name for its type. -/
theorem prefersId_iff (config : GatewayConfig) (name : String) :
    PrefersId config name ↔ NoTypeBeforeId config.providers name := by
  cases hid : firstWithId config.providers name with
  | none =>
    refine iff_of_true ⟨fun p hp => ?_, fun _ _ _ => hid⟩ (noTypeBeforeId_of_none hid)
    rw [hid] at hp
    cases hp
  | some p =>
    rw [noTypeBeforeId_iff hid]
    constructor
    · intro h
      obtain ⟨q, hq⟩ : ∃ q, findProvider config name = some q := by
        refine Option.isSome_iff_exists.mp (List.find?_isSome.mpr ⟨p, ?_, ?_⟩)
        · exact List.mem_of_find?_eq_some hid
        · rw [List.find?_some hid, Bool.true_or]
      by_cases hqid : q.id = name
      · have hfirst : firstWithId config.providers name = some q :=
          find?_of_find?_or hq (beq_iff_eq.mpr hqid)
        rwa [← hid, hfirst]
      · have hnone := h.byType q hq hqid
        rw [hid] at hnone
        cases hnone
    · intro hfind
      refine ⟨fun p' hp' G env req shared hconfig a ha hname c hc => ?_, fun q hq hqid => ?_⟩
      · obtain rfl : p = p' := Option.some.inj (hid.symm.trans hp')
        obtain ⟨-, hendpoint, ⟨token, hbuild⟩, -⟩ :=
          ((chatCompletions_ended G env req shared).sound a ha).contact c hc
        have hsettings : c.endpoint = endpointOf (some p) := by
          rw [hendpoint, Job.endpoint, hname, ← hfind, ← hconfig]
          rfl
        exact ⟨hsettings, token, hsettings ▸ hbuild⟩
      · obtain rfl : p = q := Option.some.inj (hfind.symm.trans hq)
        exact absurd (by simpa using List.find?_some hid) hqid

end Lookup

/-! ## Example -/

/-- Two OpenAI-compatible vendors. -/
def twoCompatible : GatewayConfig where
  providers := [⟨"grok", "openai", "https://api.x.ai/v1", "xai-key", 60⟩,
    ⟨"openai", "openai", "https://api.openai.com/v1", "sk-key", 60⟩]
  compactor := .default
  circuitBreaker := .default

/-- A gateway with them and a route to `openai`. -/
def openaiRoute : Gateway := { oneRoute [⟨"openai", 1, "gpt-4o"⟩] with config := twoCompatible }

/-- Where each attempt is sent, and with which headers. -/
def LoopState.calls (s : LoopState) : List (String × Option (String × List (String × String))) :=
  s.attempts.map fun a =>
    (a.selected.name, a.contact.map fun c => (c.request.url, c.request.headers))

/-- A request for OpenAI is sent to the other vendor, with that vendor's key. -/
theorem other_vendor_called :
    (chatCompletions openaiRoute (fun _ => alone 0 (.unanswered true ""))
      (questionTo "gpt-4o" false) freshShared).1.calls =
        [("openai", some ("https://api.x.ai/v1/chat/completions",
          [("content-type", "application/json"), ("authorization", "Bearer xai-key")]))] ∧
      ¬ PrefersId twoCompatible "openai" := by
  refine ⟨by decide, fun h => ?_⟩
  have hnone := h.byType ⟨"grok", "openai", "https://api.x.ai/v1", "xai-key", 60⟩ rfl (by decide)
  exact absurd hnone (by decide)

end Melis.Router
