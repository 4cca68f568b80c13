import Melis.Lib.Run
import Melis.RouteConfig.Validate

/-!
# Hot reload of the routes (`route_config.rs`)

`RouteConfigManager`: the file on disk, the watcher's callback, the channel and
`reload_loop`, as a transition system. A write changes the file and leads to one
event of the watcher, which the callback sends at any later time. The loop's steps
come in its own order, and the others' between any two of them.

* `Settled`: what the loop has in hand is the file as it is.
* `Inv.step`: a stale configuration has an event on its way.
* `reload_latest`: what a run keeps, and what it leads to.
-/

namespace Melis.RouteConfig

/-- Where `reload_loop` stands (lines 477–493). In `store` it has loaded the
    file. -/
inductive LoopPoint (Contents : Type*) where
  | recv
  | sleep
  | drain
  | load
  | store (contents : Contents)

/-- `RouteConfigManager` (lines 362–365) with the file, the events that the
    watcher's callback has not handled yet, and the messages in the channel. -/
structure RouteConfigManager (Contents : Type*) where
  file : Contents
  events : ℕ
  channel : ℕ
  loop : LoopPoint Contents
  config : RouteResolver

/-- A step of a writer, of the watcher's callback or of the loop. -/
inductive Event (Contents : Type*) where
  | write (contents : Contents)
  | trySend
  | recv
  | wake
  | tryRecv
  | load
  | store

/-- The slots of the channel (line 399). -/
def channelCapacity : ℕ := 16

section Manager

-- `load_routes` as a function of the contents: `none` if they cannot be read or parsed
variable {Contents : Type*} (U : Unicode) (loadRoutes : Contents → Option RouteConfigFile)

/-- `try_reload` (lines 503–533): the configuration afterwards. -/
def tryReload (config : RouteResolver) (contents : Contents) : RouteResolver :=
  match loadRoutes contents with
  | some newConfigFile =>
    match validate U newConfigFile with
    | .ok () => RouteResolver.new U newConfigFile
    | .error _ => config
  | none => config

/-- `RouteConfigManager::new` (lines 374–445); it panics without a valid file. -/
def RouteConfigManager.new (contents : Contents) : Option (RouteConfigManager Contents) :=
  match loadRoutes contents with
  | some configFile =>
    match validate U configFile with
    | .ok () => some
      { file := contents, events := 0, channel := 0, loop := .recv
        config := RouteResolver.new U configFile }
    | .error _ => none
  | none => none

/-- The manager at work (lines 408–423 and 471–495). -/
def reloadLoop : Lib.System (RouteConfigManager Contents) (Event Contents) where
  enabled m
    | .write _ => True
    | .trySend => 0 < m.events
    | .recv => m.loop = .recv ∧ 0 < m.channel
    | .wake => m.loop = .sleep
    | .tryRecv => m.loop = .drain
    | .load => m.loop = .load
    | .store => ∃ contents, m.loop = .store contents
  step m
    | .write contents => { m with file := contents, events := m.events + 1 }
    | .trySend =>
      { m with
        events := m.events - 1
        channel := if m.channel < channelCapacity then m.channel + 1 else m.channel }
    | .recv => { m with channel := m.channel - 1, loop := .sleep }
    | .wake => { m with loop := .drain }
    | .tryRecv =>
      if 0 < m.channel then { m with channel := m.channel - 1 } else { m with loop := .load }
    | .load => { m with loop := .store m.file }
    | .store =>
      match m.loop with
      | .store contents =>
        { m with config := tryReload U loadRoutes m.config contents, loop := .recv }
      | _ => m

/-- The kind of a point of the loop. -/
def LoopPoint.index : LoopPoint Contents → Fin 5
  | .recv => 0
  | .sleep => 1
  | .drain => 2
  | .load => 3
  | .store _ => 4

instance (m : RouteConfigManager Contents) :
    ∀ e, Decidable ((reloadLoop U loadRoutes).enabled m e)
  | .write _ => isTrue trivial
  | .trySend => inferInstanceAs (Decidable (0 < m.events))
  | .recv => decidable_of_iff (m.loop.index = 0 ∧ 0 < m.channel) <| by
      cases hloop : m.loop <;> simp [reloadLoop, LoopPoint.index, hloop]
  | .wake => decidable_of_iff (m.loop.index = 1) <| by
      cases hloop : m.loop <;> simp [reloadLoop, LoopPoint.index, hloop]
  | .tryRecv => decidable_of_iff (m.loop.index = 2) <| by
      cases hloop : m.loop <;> simp [reloadLoop, LoopPoint.index, hloop]
  | .load => decidable_of_iff (m.loop.index = 3) <| by
      cases hloop : m.loop <;> simp [reloadLoop, LoopPoint.index, hloop]
  | .store => decidable_of_iff (m.loop.index = 4) <| by
      cases hloop : m.loop <;> simp [reloadLoop, LoopPoint.index, hloop]

/-- The contents load and pass `validate`, and `resolver` is built from them. -/
def Builds (contents : Contents) (resolver : RouteResolver) : Prop :=
  ∃ file, loadRoutes contents = some file ∧ validate U file = .ok () ∧
    resolver = RouteResolver.new U file

/-- The contents load and pass `validate`. -/
def Valid (contents : Contents) : Prop :=
  ∃ file, loadRoutes contents = some file ∧ validate U file = .ok ()

/-- What a step writes. -/
def Event.written : Event Contents → Option Contents
  | .write contents => some contents
  | _ => none

/-- What the file has held: the initial contents, and those written since. -/
def history (initial : Contents)
    (tr : List (Lib.Step (RouteConfigManager Contents) (Event Contents))) : List Contents :=
  initial :: tr.filterMap fun x => x.event.written

/-! ## One reload -/

section Reload

variable {U loadRoutes} {contents : Contents} {config : RouteResolver}

theorem tryReload_of_valid (h : Valid U loadRoutes contents) :
    Builds U loadRoutes contents (tryReload U loadRoutes config contents) := by
  obtain ⟨file, hload, hvalid⟩ := h
  refine ⟨file, hload, hvalid, ?_⟩
  rw [tryReload, hload]
  dsimp only
  rw [hvalid]

/-- A failed reload keeps the configuration. -/
theorem tryReload_of_not_valid (h : ¬ Valid U loadRoutes contents) :
    tryReload U loadRoutes config contents = config := by
  unfold tryReload
  split
  · next file hload =>
    split
    · next hvalid => exact absurd ⟨file, hload, hvalid⟩ h
    · rfl
  · rfl

theorem new_eq_some {m : RouteConfigManager Contents}
    (h : RouteConfigManager.new U loadRoutes contents = some m) :
    m.file = contents ∧ m.loop = .recv ∧ Builds U loadRoutes contents m.config := by
  unfold RouteConfigManager.new at h
  split at h
  · next file hload =>
    split at h
    · next hvalid =>
      cases h
      exact ⟨rfl, rfl, file, hload, hvalid, rfl⟩
    · cases h
  · cases h

end Reload

/-! ## Runs -/

/-- The configuration is built from the file, if it is valid. -/
def Current (m : RouteConfigManager Contents) : Prop :=
  Valid U loadRoutes m.file → Builds U loadRoutes m.file m.config

/-- The loop has loaded the file as it is now, or is going to load it. -/
def Settled (m : RouteConfigManager Contents) : Prop :=
  match m.loop with
  | .recv => Current U loadRoutes m
  | .store contents => contents = m.file
  | _ => True

/-- What a run keeps. While the loop is not settled, an event is on its way. -/
structure Inv (initial : Contents)
    (tr : List (Lib.Step (RouteConfigManager Contents) (Event Contents)))
    (m : RouteConfigManager Contents) : Prop where
  file : (history initial tr).getLast? = some m.file
  loaded : ∀ contents, m.loop = .store contents → contents ∈ history initial tr
  built : ∃ contents ∈ history initial tr, Builds U loadRoutes contents m.config
  fresh : 0 < m.events ∨ 0 < m.channel ∨ Settled U loadRoutes m

section Runs

variable {U loadRoutes} {initial : Contents} {m₀ m : RouteConfigManager Contents}
  {tr : List (Lib.Step (RouteConfigManager Contents) (Event Contents))}

theorem history_concat (x : Lib.Step (RouteConfigManager Contents) (Event Contents)) :
    history initial (tr ++ [x]) = history initial tr ++ x.event.written.toList := by
  rw [history, List.filterMap_append, ← List.cons_append]
  cases h : x.event.written <;> simp [history, h]

theorem inv_new (h : RouteConfigManager.new U loadRoutes initial = some m₀) :
    Inv U loadRoutes initial [] m₀ := by
  obtain ⟨hfile, hloop, hbuilds⟩ := new_eq_some h
  refine ⟨by rw [hfile]; rfl, by simp [hloop], ⟨initial, List.mem_cons_self, hbuilds⟩, ?_⟩
  refine .inr (.inr ?_)
  rw [Settled, hloop]
  intro _
  rwa [hfile]

/-- What holds before a step that writes nothing, about the file and its
    history. -/
theorem Inv.of_unwritten (h : Inv U loadRoutes initial tr m) {e : Event Contents}
    (hwritten : e.written = none) {m' : RouteConfigManager Contents} (hfile : m'.file = m.file)
    (hloaded : ∀ contents, m'.loop = .store contents →
      m.loop = .store contents ∨ contents = m.file)
    (hconfig : m'.config = m.config ∨
      ∃ contents, m.loop = .store contents ∧ Builds U loadRoutes contents m'.config)
    (hfresh : 0 < m'.events ∨ 0 < m'.channel ∨ Settled U loadRoutes m') :
    Inv U loadRoutes initial (tr ++ [⟨m, e, m'⟩]) m' := by
  have hhistory : history initial (tr ++ [⟨m, e, m'⟩]) = history initial tr := by
    rw [history_concat, hwritten, Option.toList_none, List.append_nil]
  refine ⟨by rw [hhistory, hfile, h.file], ?_, ?_, hfresh⟩
  · intro contents hstore
    rw [hhistory]
    rcases hloaded contents hstore with hloop | rfl
    · exact h.loaded contents hloop
    · exact List.mem_of_getLast? h.file
  · rw [hhistory]
    rcases hconfig with heq | ⟨contents, hloop, hbuilds⟩
    · rw [heq]
      exact h.built
    · exact ⟨contents, h.loaded contents hloop, hbuilds⟩

theorem Inv.write (h : Inv U loadRoutes initial tr m) (contents : Contents) :
    Inv U loadRoutes initial
      (tr ++ [⟨m, .write contents, (reloadLoop U loadRoutes).step m (.write contents)⟩])
      ((reloadLoop U loadRoutes).step m (.write contents)) := by
  have hhistory : history initial
      (tr ++ [⟨m, .write contents, (reloadLoop U loadRoutes).step m (.write contents)⟩]) =
        history initial tr ++ [contents] := history_concat _
  refine ⟨?_, ?_, ?_, .inl (Nat.succ_pos _)⟩
  · rw [hhistory, List.getLast?_concat]
    rfl
  · intro contents' hstore
    rw [hhistory]
    exact List.mem_append_left _ (h.loaded contents' hstore)
  · obtain ⟨contents', hmem, hbuilds⟩ := h.built
    exact ⟨contents', by rw [hhistory]; exact List.mem_append_left _ hmem, hbuilds⟩

theorem Inv.store (h : Inv U loadRoutes initial tr m) {contents : Contents}
    (hloop : m.loop = .store contents) :
    Inv U loadRoutes initial (tr ++ [⟨m, .store, (reloadLoop U loadRoutes).step m .store⟩])
      ((reloadLoop U loadRoutes).step m .store) := by
  have hstep : (reloadLoop U loadRoutes).step m .store =
      { m with config := tryReload U loadRoutes m.config contents, loop := .recv } := by
    simp only [reloadLoop, hloop]
  rw [hstep]
  refine h.of_unwritten rfl rfl (fun _ h => by cases h) ?_ ?_
  · by_cases hvalid : Valid U loadRoutes contents
    · exact .inr ⟨contents, hloop, tryReload_of_valid hvalid⟩
    · exact .inl (tryReload_of_not_valid hvalid)
  · refine h.fresh.imp_right (Or.imp_right fun hsettled => ?_)
    rw [Settled, hloop] at hsettled
    subst hsettled
    exact tryReload_of_valid

/-- Every step keeps the invariant. -/
theorem Inv.step (h : Inv U loadRoutes initial tr m) {e : Event Contents}
    (henabled : (reloadLoop U loadRoutes).enabled m e) :
    Inv U loadRoutes initial (tr ++ [⟨m, e, (reloadLoop U loadRoutes).step m e⟩])
      ((reloadLoop U loadRoutes).step m e) := by
  cases e with
  | write contents => exact h.write contents
  | trySend =>
    refine h.of_unwritten rfl rfl (fun _ => .inl) (.inl rfl) (.inr (.inl ?_))
    -- a full channel drops the message, and is not empty
    show 0 < if m.channel < channelCapacity then m.channel + 1 else m.channel
    split_ifs with hroom
    · exact Nat.succ_pos _
    · exact Nat.lt_of_lt_of_le (by decide) (Nat.le_of_not_lt hroom)
  | recv => exact h.of_unwritten rfl rfl (fun _ h => by cases h) (.inl rfl) (.inr (.inr trivial))
  | wake => exact h.of_unwritten rfl rfl (fun _ h => by cases h) (.inl rfl) (.inr (.inr trivial))
  | tryRecv =>
    have hloop : m.loop = .drain := henabled
    by_cases hpending : 0 < m.channel
    · have hstep : (reloadLoop U loadRoutes).step m .tryRecv =
          { m with channel := m.channel - 1 } := if_pos hpending
      rw [hstep]
      refine h.of_unwritten rfl rfl (fun _ => .inl) (.inl rfl) (.inr (.inr ?_))
      rw [Settled, hloop]
      trivial
    · have hstep : (reloadLoop U loadRoutes).step m .tryRecv = { m with loop := .load } :=
        if_neg hpending
      rw [hstep]
      exact h.of_unwritten rfl rfl (fun _ h => by cases h) (.inl rfl) (.inr (.inr trivial))
  | load =>
    refine h.of_unwritten rfl rfl (fun _ h => ?_) (.inl rfl) (.inr (.inr rfl))
    cases h
    exact .inr rfl
  | store =>
    obtain ⟨contents, hloop⟩ := henabled
    exact h.store hloop

theorem inv_run (hnew : RouteConfigManager.new U loadRoutes initial = some m₀)
    (hrun : Lib.Run (reloadLoop U loadRoutes) m₀ tr m) : Inv U loadRoutes initial tr m := by
  induction hrun with
  | nil => exact inv_new hnew
  | snoc _ henabled ih => exact ih.step henabled

/-- A step changes the configuration only when it stores valid contents. -/
theorem config_step {e : Event Contents} (henabled : (reloadLoop U loadRoutes).enabled m e) :
    ((reloadLoop U loadRoutes).step m e).config = m.config ∨
      ∃ contents, e = .store ∧ m.loop = .store contents ∧ Valid U loadRoutes contents := by
  cases e with
  | store =>
    obtain ⟨contents, hloop⟩ := henabled
    by_cases hvalid : Valid U loadRoutes contents
    · exact .inr ⟨contents, rfl, hloop, hvalid⟩
    · refine .inl ?_
      simp only [reloadLoop, hloop]
      exact tryReload_of_not_valid hvalid
  | tryRecv =>
    refine .inl ?_
    simp only [reloadLoop]
    split_ifs <;> rfl
  | write contents => exact .inl rfl
  | trySend => exact .inl rfl
  | recv => exact .inl rfl
  | wake => exact .inl rfl
  | load => exact .inl rfl

/-- **Hot reload.** After any run, the configuration is built from contents that
    the file has held and that are valid. A step changes it only by storing valid
    contents, so that a failed reload keeps it. When no event is on its way, the
    channel is empty and the loop waits in `recv`, the configuration is that of the
    last contents written, if they are valid. -/
theorem reload_latest (hnew : RouteConfigManager.new U loadRoutes initial = some m₀)
    (hrun : Lib.Run (reloadLoop U loadRoutes) m₀ tr m) :
    (∃ contents ∈ history initial tr, Builds U loadRoutes contents m.config) ∧
    (∀ x ∈ tr, x.post.config = x.pre.config ∨
      ∃ contents, x.event = .store ∧ x.pre.loop = .store contents ∧
        Valid U loadRoutes contents) ∧
    (m.events = 0 → m.channel = 0 → m.loop = .recv →
      ∀ last, (history initial tr).getLast? = some last → Valid U loadRoutes last →
        Builds U loadRoutes last m.config) := by
  have hinv := inv_run hnew hrun
  refine ⟨hinv.built, fun x hx => ?_, fun hevents hchannel hloop last hlast hvalid => ?_⟩
  · obtain ⟨pre, post, rfl⟩ := List.append_of_mem hx
    obtain ⟨-, henabled, hpost⟩ := hrun.split
    rw [hpost]
    exact config_step henabled
  · obtain rfl : m.file = last := Option.some.inj (hinv.file.symm.trans hlast)
    rcases hinv.fresh with h | h | h
    · omega
    · omega
    · rw [Settled, hloop] at h
      exact h hvalid

end Runs

end Manager

/-! ## Example -/

/-- A file with one route to a provider. -/
def oneRouteFile (provider : String) : RouteConfigFile where
  routes := [⟨"/v1/chat/completions", "POST", some provider, none, none, none⟩]

/-- A manager started with a route to OpenAI. The file is given by its routes. -/
def started : RouteConfigManager RouteConfigFile where
  file := oneRouteFile "openai"
  events := 0
  channel := 0
  loop := .recv
  config := .new Unicode.ascii (oneRouteFile "openai")

/-- The route is changed twice before the loop loads the file. -/
def twoWrites : List (Event RouteConfigFile) :=
  [.write (oneRouteFile "ollama"), .trySend, .recv, .write (oneRouteFile "anthropic"), .trySend,
    .wake, .tryRecv, .tryRecv, .load, .store]

theorem new_started :
    RouteConfigManager.new Unicode.ascii some (oneRouteFile "openai") = some started := rfl

theorem validate_oneRouteFile : validate Unicode.ascii (oneRouteFile "anthropic") = .ok () := by
  rfl

/-- The second change is active after one reload. -/
theorem reload_latest_twoWrites :
    Builds Unicode.ascii some (oneRouteFile "anthropic")
      (twoWrites.foldl (reloadLoop Unicode.ascii some).step started).config := by
  refine (reload_latest new_started
    (Lib.run_trace (reloadLoop Unicode.ascii some) started twoWrites ?_)).2.2 rfl rfl rfl _ rfl
    ⟨_, rfl, validate_oneRouteFile⟩
  simp [twoWrites, Lib.System.trace, reloadLoop, started, channelCapacity]

end Melis.RouteConfig
