import ChordV.Helper.Apply

/-!
# What one request leaves behind

* `publish_ends`, `deploy_ends`, `drop_ends`, `reset_ends` and `ensure_ends` follow the steps of a
  request.  Each says what holds of its value or its error, and of the world it is killed in.
* `of_perform` carries such a statement over to a run of the helper.
* `left_of_perform`: the keys that a request records or publishes were recorded before, or the
  request generated them.
* `failed_of_perform`: a request that fails has put both files back, unless the write of its
  committed record is what failed.
* `answered_of_perform` says what an ensure reports, and `not_smooth_of_failed` that it does not
  fail without a refusal.
-/

namespace ChordV.Helper

open Lib

variable {sha256 : Identity → String} {request : InboundRequest} {env : Env}

/-! ## Publishing -/

theorem Ends.write {α : Type} {P S D : World → Prop} {R : Except String α → World → Prop}
    {write : Write} {f : World → World} {rest : Unit → Action α}
    (hfail : ∀ e w, env.write write = .error e → P w → R (.error e) w) (hdie : ∀ w, P w → D w)
    (hrun : ∀ w, P w → S (f w)) (h : env.write write = .ok () → Ends S (rest ()) R D) :
    Ends P (writeFileAtomic env write f >>= rest) R D := by
  unfold writeFileAtomic
  rw [bind_assoc]
  exact Ends.bindLift hfail fun _ hok => Ends.bindSurely hdie hrun (h hok)

/-- Neither the write of the fragment, the restart nor the check of the port fails. -/
structure Works (env : Env) (port : Nat) : Prop where
  write : env.write .fragment = .ok ()
  restart : env.restart = .ok ()
  listening : 0 < port → env.isListening port = true

/-- What a publication has touched, wherever it is cut off. -/
structure Publishing (contents : Fragment) (w₀ w : World) : Prop where
  state : w.files.state = w₀.files.state
  generated : w.generated = w₀.generated
  published : ∀ f ∈ w.published, f ∈ w₀.published ∨ f = contents

namespace Publishing

variable {contents : Fragment} {w₀ w : World}

theorem refl : Publishing contents w w := ⟨rfl, rfl, fun _ hf => .inl hf⟩

theorem publish (h : Publishing contents w₀ w) : Publishing contents w₀ (w.publish contents) := by
  refine ⟨h.state, h.generated, fun f hf => ?_⟩
  obtain hf | hf := List.mem_append.1 hf
  · exact h.published f hf
  · exact .inr (List.mem_singleton.1 hf)

theorem restarted (h : Publishing contents w₀ w) : Publishing contents w₀ w.restarted :=
  ⟨h.state, h.generated, h.published⟩

theorem putBack (h : Publishing contents w₀ w) (fragment : Option Fragment) :
    Publishing contents w₀ (w.putBack fragment) :=
  ⟨h.state, h.generated, h.published⟩

end Publishing

theorem publish_ends (env : Env) (contents : Fragment) (port : Nat) (w₀ : World) :
    Ends (fun w => w = w₀) (publishAndRestart env contents port)
      (fun r w => match r with
        | .ok _ => w = (w₀.publish contents).restarted
        | .error _ => Publishing contents w₀ w ∧ w.files = w₀.files ∧ ¬ Works env port)
      (Publishing contents w₀) := by
  have hstart : Publishing contents w₀ w₀ := .refl
  have hrollback : ∀ reason : String, ¬ Works env port →
      Ends (fun w => w = (w₀.publish contents).restarted)
        (do
          surely (World.putBack w₀.files.fragment)
          surely World.restarted
          fail (reason ++ "，已回滚上一份配置") : Action Unit)
        (fun r w => match r with
          | .ok _ => w = (w₀.publish contents).restarted
          | .error _ => Publishing contents w₀ w ∧ w.files = w₀.files ∧ ¬ Works env port)
        (Publishing contents w₀) := by
    intro reason hworks
    have hback := hstart.publish.restarted.putBack w₀.files.fragment
    refine Ends.bindSurely (S := fun w => w = ((w₀.publish contents).restarted).putBack
      w₀.files.fragment) ?_ ?_ ?_
    · rintro _ rfl
      exact hstart.publish.restarted
    · rintro _ rfl
      rfl
    refine Ends.bindSurely (S := fun w => w = (((w₀.publish contents).restarted).putBack
      w₀.files.fragment).restarted) ?_ ?_ ?_
    · rintro _ rfl
      exact hback
    · rintro _ rfl
      rfl
    refine Ends.fail ?_
    rintro _ rfl
    exact ⟨hback.restarted, rfl, hworks⟩
  unfold publishAndRestart
  refine Ends.bindPeek fun w hw => ?_
  subst w
  refine Ends.write (S := fun w => w = World.publish contents w₀) ?_ ?_ ?_ ?_
  · rintro e w hwrite rfl
    exact ⟨hstart, rfl, fun hworks => by cases hwrite.symm.trans hworks.write⟩
  · rintro _ rfl
    exact hstart
  · rintro _ rfl
    rfl
  intro hwrite
  refine Ends.bindSurely (S := fun w => w = (w₀.publish contents).restarted) ?_ ?_ ?_
  · rintro _ rfl
    exact hstart.publish
  · rintro _ rfl
    rfl
  cases hrestart : env.restart with
  | error e => exact hrollback _ fun hworks => by cases hrestart.symm.trans hworks.restart
  | ok =>
    dsimp only
    split_ifs with hport
    · refine hrollback _ fun hworks => ?_
      simp only [Bool.and_eq_true, decide_eq_true_eq, Bool.not_eq_true'] at hport
      cases hport.2.symm.trans (hworks.listening hport.1)
    · exact Ends.pure fun _ hw => hw

/-! ## Deploying -/

/-- Nothing that a deployment does fails. -/
structure Deploys (env : Env) (port : Nat) : Prop where
  journal : env.write .journal = .ok ()
  works : Works env port
  committed : env.write .committed = .ok ()

/-- What a deployment has touched, wherever it is cut off. -/
structure Deploying (env : Env) (contents : Inbound) (state : State) (w₀ w : World) : Prop where
  state : w.files.state = w₀.files.state ∨
    ∃ pending, w.files.state = some (State.file { state with pending } env.now)
  generated : w.generated = w₀.generated
  published : ∀ f ∈ w.published, f ∈ w₀.published ∨ f = .inbound contents

namespace Deploying

variable {contents : Inbound} {state : State} {w₀ w : World}

theorem refl : Deploying env contents state w w := ⟨.inl rfl, rfl, fun _ hf => .inl hf⟩

theorem setState (h : Deploying env contents state w₀ w) {file : Option StateFile}
    (hfile : file = w₀.files.state ∨
      ∃ pending, file = some (State.file { state with pending } env.now)) :
    Deploying env contents state w₀ (w.setState file) :=
  ⟨hfile, h.generated, h.published⟩

theorem publishing (h : Deploying env contents state w₀ w) {w' : World}
    (hpublish : Publishing (.inbound contents) w w') : Deploying env contents state w₀ w' := by
  refine ⟨?_, hpublish.generated.trans h.generated, fun f hf => ?_⟩
  · rw [hpublish.state]
    exact h.state
  · obtain hf | hf := hpublish.published f hf
    · exact h.published f hf
    · exact .inr hf

end Deploying

theorem deploy_ends (env : Env) (contents : Inbound) (state : State) (outcome : ApplyOutcome)
    (w₀ : World) :
    Ends (fun w => w = w₀) (deploy env contents state outcome)
      (fun r w => Deploying env contents state w₀ w ∧ match r with
        | .ok o => o = outcome ∧ w.files.fragment = some (.inbound contents) ∧
            w.files.state = some (State.file { state with pending := false } env.now)
        | .error _ => (w.files = w₀.files ∨ ∃ e, env.write .committed = .error e) ∧
            ¬ Deploys env contents.port)
      (Deploying env contents state w₀) := by
  have hstart : Deploying env contents state w₀ w₀ := .refl
  unfold deploy
  refine Ends.bindPeek fun w hw => ?_
  subst w
  have hjournal : Deploying env contents state w₀
      (w₀.setState (some (State.file { state with pending := true } env.now))) :=
    hstart.setState (.inr ⟨true, rfl⟩)
  generalize hw₁ : w₀.setState (some (State.file { state with pending := true } env.now)) = w₁
    at hjournal
  have hfragment : w₁.files.fragment = w₀.files.fragment := by
    rw [← hw₁]
    rfl
  refine Ends.write (S := fun w => w = w₁) ?_ ?_ ?_ fun _ => ?_
  · rintro e w hwrite rfl
    exact ⟨hstart, .inl rfl, fun hdeploys => by cases hwrite.symm.trans hdeploys.journal⟩
  · rintro _ rfl
    exact hstart
  · rintro _ rfl
    exact hw₁
  refine Ends.bindAttempt ((publish_ends env (.inbound contents) contents.port w₁).conseq
    (fun _ hw => hw) (fun _ _ hw => hw) fun _ hw => hjournal.publishing hw) fun r => ?_
  cases r with
  | error e =>
    dsimp only
    refine Ends.bindSurely (S := fun w => Deploying env contents state w₀ w ∧
      w.files = w₀.files ∧ ¬ Works env contents.port) ?_ ?_ ?_
    · rintro w ⟨hw, -, -⟩
      exact hjournal.publishing hw
    · rintro w ⟨hw, hfiles, hworks⟩
      refine ⟨(hjournal.publishing hw).setState (.inl rfl), ?_, hworks⟩
      simp only [World.setState, hfiles, hfragment]
    refine Ends.fail ?_
    rintro w ⟨hw, hfiles, hworks⟩
    exact ⟨hw, .inl hfiles, fun hdeploys => hworks hdeploys.works⟩
  | ok =>
    dsimp only
    generalize hw₂ : (w₁.publish (.inbound contents)).restarted = w₂
    have hpublished : Deploying env contents state w₀ w₂ :=
      hw₂ ▸ hjournal.publishing Publishing.refl.publish.restarted
    have hcontents : w₂.files.fragment = some (.inbound contents) := by
      rw [← hw₂]
      rfl
    refine Ends.write (S := fun w => w = w₂.setState (some (State.file
      { state with pending := false } env.now))) ?_ ?_ ?_ fun _ => ?_
    · rintro e w hwrite rfl
      refine ⟨hpublished, .inr ⟨e, hwrite⟩, fun hdeploys => ?_⟩
      cases hwrite.symm.trans hdeploys.committed
    · rintro _ rfl
      exact hpublished
    · rintro _ rfl
      rfl
    refine Ends.pure ?_
    rintro _ rfl
    exact ⟨hpublished.setState (.inr ⟨false, rfl⟩), rfl, hcontents, rfl⟩

/-! ## Resetting -/

/-- What a reset has touched, wherever it is cut off. -/
structure Resetting (w₀ w : World) : Prop where
  state : w.files.state = w₀.files.state ∨ w.files.state = none ∨
    ∃ state pending, readState w₀.files.state = some state ∧
      w.files.state = some (State.file { state with pending } "")
  generated : w.generated = w₀.generated
  published : ∀ f ∈ w.published, f ∈ w₀.published ∨ f = .empty

namespace Resetting

variable {w₀ w : World}

theorem publishing (h : Resetting w₀ w) {w' : World} (hpublish : Publishing .empty w w') :
    Resetting w₀ w' := by
  refine ⟨?_, hpublish.generated.trans h.generated, fun f hf => ?_⟩
  · rw [hpublish.state]
    exact h.state
  · obtain hf | hf := hpublish.published f hf
    · exact h.published f hf
    · exact .inr hf

end Resetting

/-- From a journal that leaves the fragment alone, and that is no journal where there is no state
file. -/
theorem drop_ends (env : Env) {w₀ w₁ : World} (h : Resetting w₀ w₁)
    (hfragment : w₁.files.fragment = w₀.files.fragment)
    (hnone : w₀.files.state = none → w₁.files = w₀.files) :
    Ends (fun w => w = w₁) (dropInbound env w₀.files.state)
      (fun r w => Resetting w₀ w ∧ ∀ e, r = .error e → w.files = w₀.files) (Resetting w₀) := by
  unfold dropInbound
  refine Ends.bindAttempt ((publish_ends env .empty 0 w₁).conseq (fun _ hw => hw)
    (fun _ _ hw => hw) fun _ hw => h.publishing hw) fun r => ?_
  cases r with
  | error e =>
    dsimp only
    cases hcommitted : w₀.files.state with
    | none =>
      refine Ends.fail ?_
      rintro w ⟨hw, hfiles, -⟩
      exact ⟨h.publishing hw, fun _ _ => hfiles.trans (hnone hcommitted)⟩
    | some committed =>
      refine Ends.bindSurely (S := fun w => Resetting w₀ w ∧ w.files = w₀.files) ?_ ?_
        (Ends.fail fun w hw => ⟨hw.1, fun _ _ => hw.2⟩)
      · rintro w ⟨hw, -, -⟩
        exact h.publishing hw
      · rintro w ⟨hw, hfiles, -⟩
        have hleft := h.publishing hw
        refine ⟨⟨.inl hcommitted.symm, hleft.generated, hleft.published⟩, ?_⟩
        simp only [World.setState, hfiles, hfragment, ← hcommitted]
  | ok =>
    dsimp only
    have hpublished := h.publishing Publishing.refl.publish.restarted
    refine Ends.bindSurely (S := Resetting w₀) ?_ ?_ ?_
    · rintro _ rfl
      exact hpublished
    · rintro _ rfl
      exact ⟨.inr (.inl rfl), hpublished.generated, hpublished.published⟩
    · exact Ends.pure fun w hw => ⟨hw, fun e he => by cases he⟩

theorem reset_ends (env : Env) (w₀ : World) :
    Ends (fun w => w = w₀) (resetInbound env)
      (fun r w => Resetting w₀ w ∧ ∀ e, r = .error e → w.files = w₀.files) (Resetting w₀) := by
  have hstart : Resetting w₀ w₀ := ⟨.inl rfl, rfl, fun _ hf => .inl hf⟩
  unfold resetInbound
  refine Ends.bindPeek fun w hw => ?_
  subst w
  dsimp only
  split_ifs with hnothing
  · refine Ends.pure ?_
    rintro _ rfl
    exact ⟨hstart, fun e he => by cases he⟩
  refine Ends.bindLift ?_ fun _ _ => ?_
  · rintro e w - rfl
    exact ⟨hstart, fun _ _ => rfl⟩
  cases hstate : readState w₀.files.state with
  | none => exact drop_ends env hstart rfl fun _ => rfl
  | some state =>
    have hsome : w₀.files.state ≠ none := by
      intro hnone
      rw [hnone] at hstate
      cases hstate
    have hjournal : Resetting w₀ (w₀.setState (some (State.file
        { state with pending := true } ""))) :=
      ⟨.inr (.inr ⟨state, true, hstate, rfl⟩), rfl, hstart.published⟩
    refine Ends.write ?_ ?_ ?_ fun _ => drop_ends env hjournal rfl fun hnone => absurd hnone hsome
    · rintro e w - rfl
      exact ⟨hstart, fun _ _ => rfl⟩
    · rintro _ rfl
      exact hstart
    · rintro _ rfl
      rfl

/-! ## Ensuring -/

/-- Nothing that an ensure asks for is refused. -/
structure Smooth (sha256 : Identity → String) (request : InboundRequest) (env : Env)
    (files : Files) : Prop where
  tag : ∃ reserved, env.reservedInboundTags = .ok reserved ∧
    reserved.contains request.inboundTag = false
  dest : ∃ pinnedDest, env.assertPublicDest = .ok pinnedDest
  deploys : inPlace? sha256 request env files = none →
    (reusableKeys request files = none → ∃ keys, env.generateKeys = .ok keys) ∧
      (∃ listen, env.resolveListen = .ok listen ∧
        (request.requireListen = "" ∨ request.requireListen = listen)) ∧
      env.assertPortAvailable = .ok () ∧ env.assertConfigValid = .ok () ∧
      Deploys env request.listenPort

/-- The keys that a request goes on with. -/
def Used (request : InboundRequest) (files : Files) (w : World) (keys : RealityKeys) : Prop :=
  reusableKeys request files = some keys ∨ keys ∈ w.generated

/-- The state file is a record of the request. -/
def Recorded (request : InboundRequest) (files : Files) (w : World) : Prop :=
  ∃ state rest, w.files.state = some (State.file state rest) ∧
    state.commandId = request.commandId ∧ Used request files w state.keys

/-- What an ensure has touched, wherever it is cut off. -/
structure Ensured (request : InboundRequest) (env : Env) (files : Files) (w : World) : Prop where
  generated : w.generated = [] ∨ reusableKeys request files = none ∧
    ∃ keys, env.generateKeys = .ok keys ∧ w.generated = [keys]
  state : w.files.state = files.state ∨ Recorded request files w
  published : ∀ f ∈ w.published, ∃ inbound keys,
    f = .inbound inbound ∧ inbound.privateKey = keys.privateKey ∧ Used request files w keys

/-- An answer and the fragment it is about. -/
def Reported (files : Files) (w : World) (outcome : ApplyOutcome) : Prop :=
  ∃ inbound keys, w.files.fragment = some (.inbound inbound) ∧
    inbound.privateKey = keys.privateKey ∧ outcome.realityPublicKey = keys.publicKey ∧
    outcome.shortId = inbound.shortId ∧ outcome.listenPort = inbound.port ∧
    outcome.listen = inbound.listen ∧
    ((∃ state, readState files.state = some state ∧ state.keys = keys) ∨ keys ∈ w.generated)

theorem exists_of_reusableKeys {files : Files} {keys : RealityKeys}
    (h : reusableKeys request files = some keys) :
    ∃ state, readState files.state = some state ∧ state.keys = keys := by
  obtain ⟨state, hstate, hkeys⟩ := Option.map_eq_some_iff.1 h
  exact ⟨state, (Option.filter_eq_some_iff.1 hstate).1, hkeys⟩

/-- An inbound that is in place is the one in the fragment. -/
theorem reported_of_inPlace {files : Files} {state : State}
    (h : inPlace? sha256 request env files = some state) {w : World} (hfiles : w.files = files) :
    Reported files w (unchanged request env state) := by
  obtain ⟨hstate, hplace⟩ := Option.filter_eq_some_iff.1 h
  have hconfig : configMatches request files.fragment state = true := by
    simp only [inPlace, Bool.or_eq_true, Bool.and_eq_true] at hplace
    obtain ⟨-, ⟨⟨⟨⟨-, hconfig⟩, -⟩, -⟩, -⟩⟩ | ⟨-, ⟨⟨⟨⟨-, hconfig⟩, -⟩, -⟩, -⟩⟩ := hplace
    · exact hconfig
    · exact hconfig
  rw [configMatches, decide_eq_true_eq] at hconfig
  refine ⟨_, state.keys, hfiles ▸ hconfig, rfl, rfl, rfl, rfl, rfl, .inl ⟨state, hstate, rfl⟩⟩

theorem choose_ends (request : InboundRequest) (env : Env) (files : Files) :
    Ends (fun w => w = { files }) (chooseKeys request env files)
      (fun r w => w.files = files ∧ w.published = [] ∧ match r with
        | .ok keys => Used request files w keys ∧ (w.generated = [] ∨
            reusableKeys request files = none ∧ env.generateKeys = .ok keys ∧ w.generated = [keys])
        | .error _ => w.generated = [] ∧ reusableKeys request files = none ∧
            ∀ keys, env.generateKeys ≠ .ok keys)
      fun _ => False := by
  unfold chooseKeys
  cases hreusable : reusableKeys request files with
  | some keys =>
    refine Ends.pure ?_
    rintro _ rfl
    exact ⟨rfl, rfl, .inl hreusable, .inl rfl⟩
  | none =>
    refine Ends.bindLift ?_ fun keys hkeys => ?_
    · rintro e _ hgenerate rfl
      exact ⟨rfl, rfl, rfl, rfl, fun keys hkeys => by cases hgenerate.symm.trans hkeys⟩
    refine Ends.bindPoke (S := fun w => w = { files, generated := [keys] }) ?_ (Ends.pure ?_)
    · rintro _ rfl
      rfl
    · rintro _ rfl
      exact ⟨rfl, rfl, .inr List.mem_cons_self, .inr ⟨rfl, hkeys, rfl⟩⟩

/-- A deployment with keys that a request goes on with. -/
theorem Ensured.of_deploying {files : Files} {w₀ w : World} (hfiles : w₀.files = files)
    (hpublished : w₀.published = [])
    (hgenerated : w₀.generated = [] ∨ reusableKeys request files = none ∧
      ∃ keys, env.generateKeys = .ok keys ∧ w₀.generated = [keys])
    {contents : Inbound} {state : State} (hused : Used request files w₀ state.keys)
    (hkeys : contents.privateKey = state.keys.privateKey)
    (hcommand : state.commandId = request.commandId)
    (h : Deploying env contents state w₀ w) : Ensured request env files w := by
  have hused : Used request files w state.keys := by
    unfold Used
    rw [h.generated]
    exact hused
  refine ⟨?_, ?_, ?_⟩
  · rw [h.generated]
    exact hgenerated
  · obtain hstate | ⟨pending, hstate⟩ := h.state
    · exact .inl (hstate.trans (by rw [hfiles]))
    · exact .inr ⟨_, _, hstate, hcommand, hused⟩
  · intro f hf
    obtain hf | hf := h.published f hf
    · rw [hpublished] at hf
      cases hf
    · exact ⟨contents, state.keys, hf, hkeys, hused⟩

theorem ensure_ends (sha256 : Identity → String) (request : InboundRequest) (env : Env)
    (files : Files) :
    Ends (fun w => w = { files }) (ensureInbound sha256 request env)
      (fun r w => Ensured request env files w ∧ match r with
        | .ok outcome => Reported files w outcome ∧
            ((inPlace? sha256 request env files).isSome ∧ w.files = files ∨
              Recorded request files w)
        | .error _ => (w.files = files ∨ ∃ e, env.write .committed = .error e) ∧
            ¬ Smooth sha256 request env files)
      (Ensured request env files) := by
  have hstart : Ensured request env files { files } :=
    ⟨.inl rfl, .inl rfl, fun f hf => by cases hf⟩
  unfold ensureInbound
  refine Ends.bindPeek fun w hw => ?_
  subst w
  dsimp only
  refine Ends.bindLift ?_ fun reserved hreserved => ?_
  · rintro e _ he rfl
    refine ⟨hstart, .inl rfl, fun hsmooth => ?_⟩
    obtain ⟨reserved, hok, -⟩ := hsmooth.tag
    cases he.symm.trans hok
  refine Ends.bindEnsure ?_ fun htag => ?_
  · rintro _ htag rfl
    refine ⟨hstart, .inl rfl, fun hsmooth => ?_⟩
    obtain ⟨reserved', hok, hfree⟩ := hsmooth.tag
    obtain rfl := Except.ok.inj (hreserved.symm.trans hok)
    rw [hfree] at htag
    cases htag
  refine Ends.bindLift ?_ fun pinnedDest _ => ?_
  · rintro e _ he rfl
    refine ⟨hstart, .inl rfl, fun hsmooth => ?_⟩
    obtain ⟨pinnedDest, hok⟩ := hsmooth.dest
    cases he.symm.trans hok
  cases hplace : inPlace? sha256 request env files with
  | some state =>
    refine Ends.pure ?_
    rintro _ rfl
    exact ⟨hstart, reported_of_inPlace hplace rfl, .inl ⟨rfl, rfl⟩⟩
  | none =>
    dsimp only
    refine Ends.bind ((choose_ends request env files).conseq (fun _ hw => hw) (fun _ _ hw => hw)
      fun _ hw => hw.elim) (fun keys => ?_) ?_
    · -- From here on, the keys are known and the world is the one they were chosen in.
      refine Ends.atWorld fun w₁ hw₁ => ?_
      obtain ⟨hfiles, hpublished, hused, hgenerated⟩ := hw₁
      have hgenerated' : w₁.generated = [] ∨ reusableKeys request files = none ∧
          ∃ keys, env.generateKeys = .ok keys ∧ w₁.generated = [keys] := by
        obtain hnone | ⟨hreusable, hkeys, hone⟩ := hgenerated
        · exact .inl hnone
        · exact .inr ⟨hreusable, keys, hkeys, hone⟩
      have hchosen : Ensured request env files w₁ :=
        ⟨hgenerated', .inl (by rw [hfiles]), fun f hf => by rw [hpublished] at hf; cases hf⟩
      have hrefused : ∀ e : String, ¬ Smooth sha256 request env files → ∀ w, w = w₁ →
          Ensured request env files w ∧
            (w.files = files ∨ ∃ e, env.write .committed = .error e) ∧
              ¬ Smooth sha256 request env files := by
        rintro e hsmooth _ rfl
        exact ⟨hchosen, .inl hfiles, hsmooth⟩
      refine Ends.bindLift ?_ fun listen hlisten => ?_
      · intro e w he
        refine hrefused e (fun hsmooth => ?_) w
        obtain ⟨-, ⟨listen, hok, -⟩, -⟩ := hsmooth.deploys hplace
        cases he.symm.trans hok
      refine Ends.bindEnsure ?_ fun _ => ?_
      · intro w hfamily
        refine hrefused "" (fun hsmooth => ?_) w
        obtain ⟨-, ⟨listen', hok, hrequire⟩, -⟩ := hsmooth.deploys hplace
        obtain rfl := Except.ok.inj (hlisten.symm.trans hok)
        obtain hrequire | hrequire := hrequire <;> simp [hrequire] at hfamily
      refine Ends.bindLift ?_ fun _ _ => ?_
      · intro e w he
        refine hrefused e (fun hsmooth => ?_) w
        obtain ⟨-, -, hok, -⟩ := hsmooth.deploys hplace
        cases he.symm.trans hok
      refine Ends.bindLift ?_ fun _ _ => ?_
      · intro e w he
        refine hrefused e (fun hsmooth => ?_) w
        obtain ⟨-, -, -, hok, -⟩ := hsmooth.deploys hplace
        cases he.symm.trans hok
      refine (deploy_ends env _ _ _ w₁).conseq (fun _ hw => hw) ?_ fun w hw => ?_
      · rintro r w ⟨hw, hend⟩
        have hleft := Ensured.of_deploying hfiles hpublished hgenerated' hused rfl rfl hw
        refine ⟨hleft, ?_⟩
        cases r with
        | ok outcome =>
          obtain ⟨rfl, hfragment, hstate⟩ := hend
          have hused' : Used request files w keys := by
            unfold Used
            rw [hw.generated]
            exact hused
          refine ⟨⟨_, keys, hfragment, rfl, rfl, rfl, rfl, rfl, ?_⟩,
            .inr ⟨_, _, hstate, rfl, hused'⟩⟩
          obtain hreusable | hmem := hused'
          · exact .inl (exists_of_reusableKeys hreusable)
          · exact .inr hmem
        | error e =>
          obtain ⟨hback, hdeploys⟩ := hend
          rw [hfiles] at hback
          exact ⟨hback, fun hsmooth => hdeploys (hsmooth.deploys hplace).2.2.2.2⟩
      · exact Ensured.of_deploying hfiles hpublished hgenerated' hused rfl rfl hw
    · rintro e w ⟨hfiles, hpublished, hgenerated, hreusable, hnone⟩
      refine ⟨⟨.inl hgenerated, .inl (by rw [hfiles]), fun f hf => ?_⟩, .inl hfiles,
        fun hsmooth => ?_⟩
      · rw [hpublished] at hf
        cases hf
      · obtain ⟨keys, hkeys⟩ := (hsmooth.deploys hplace).1 hreusable
        exact hnone keys hkeys

/-! ## Whole requests -/

/-- What a request does holds until its result is written. -/
theorem handle_ends {files : Files} {Q : Except String ApplyOutcome → World → Prop}
    {D : World → Prop}
    (h : Ends (fun w => w = { files }) (applyRequest sha256 request env) Q D) :
    Ends (fun w => w = { files }) (handle sha256 request env) Q
      fun w => D w ∨ ∃ r, Q r w := by
  unfold handle
  refine Ends.bindAttempt (h.conseq (fun _ hw => hw) (fun _ _ hw => hw) fun _ hw => .inl hw)
    fun r => ?_
  refine Ends.bindSurely (S := Q r) (fun w hw => .inr ⟨r, hw⟩) (fun _ hw => hw) ?_
  cases r with
  | ok outcome => exact Ends.pure fun _ hw => hw
  | error e => exact Ends.fail fun _ hw => hw

theorem of_perform {a : Attempt} {files : Files} {Q : Except String ApplyOutcome → World → Prop}
    {D : World → Prop}
    (h : Ends (fun w => w = { files }) (applyRequest sha256 a.request a.env) Q D)
    {ending : Ending} {w : World} (hperform : a.perform sha256 files = (ending, w)) :
    match ending with
    | .answered outcome => Q (.ok outcome) w
    | .failed e => Q (.error e) w
    | .killed => D w ∨ ∃ r, Q r w := by
  have hhandle := handle_ends h ⟨{ files }, a.fates⟩ rfl
  unfold Attempt.perform at hperform
  cases hr : handle sha256 a.request a.env ⟨{ files }, a.fates⟩ with
  | ok outcome s =>
    rw [hr] at hhandle hperform
    cases hperform
    exact hhandle
  | error e s =>
    rw [hr] at hhandle hperform
    cases e with
    | err e => cases hperform; exact hhandle
    | died => cases hperform; exact hhandle

/-- What holds however a request ends. -/
theorem of_perform_all {a : Attempt} {files : Files} {I : World → Prop}
    {Q : Except String ApplyOutcome → World → Prop}
    (h : Ends (fun w => w = { files }) (applyRequest sha256 a.request a.env)
      (fun r w => I w ∧ Q r w) I)
    {ending : Ending} {w : World} (hperform : a.perform sha256 files = (ending, w)) : I w := by
  have hend := of_perform h hperform
  cases ending with
  | answered outcome => exact hend.1
  | failed e => exact hend.1
  | killed =>
    obtain hdead | ⟨r, hend, -⟩ := hend
    · exact hdead
    · exact hend

/-! ## What every request leaves -/

/-- The keys were recorded before, or this request generated them. -/
def Known (files : Files) (w : World) (keys : RealityKeys) : Prop :=
  (∃ state, readState files.state = some state ∧ state.keys = keys) ∨ keys ∈ w.generated

/-- What an attempt has generated, recorded and published. -/
structure Left (env : Env) (files : Files) (w : World) : Prop where
  generated : ∀ keys ∈ w.generated, env.generateKeys = .ok keys
  recorded : ∀ state, readState w.files.state = some state → Known files w state.keys
  published : ∀ inbound, .inbound inbound ∈ w.published →
    ∃ keys, Known files w keys ∧ inbound.privateKey = keys.privateKey

/-- A state that is read back is the one that was written. -/
theorem state_of_readState {state state' : State} {rest : String}
    (h : readState (some (state.file rest)) = some state') : state' = state := by
  by_cases hpresent : state.keys.present = true
  · rw [readState_file hpresent] at h
    exact (Option.some.inj h).symm
  · simp [State.file, readState, hpresent] at h

theorem Used.known {files : Files} {w : World} {keys : RealityKeys}
    (h : Used request files w keys) : Known files w keys := by
  obtain hreusable | hmem := h
  · exact .inl (exists_of_reusableKeys hreusable)
  · exact .inr hmem

theorem Ensured.left {files : Files} {w : World} (h : Ensured request env files w) :
    Left env files w := by
  refine ⟨fun keys hmem => ?_, fun state hstate => ?_, fun inbound hmem => ?_⟩
  · obtain hnone | ⟨-, keys', hkeys, hone⟩ := h.generated
    · rw [hnone] at hmem
      cases hmem
    · rw [hone, List.mem_singleton] at hmem
      rw [hmem]
      exact hkeys
  · obtain hsame | ⟨state', rest, hfile, -, hused⟩ := h.state
    · exact .inl ⟨state, hsame ▸ hstate, rfl⟩
    · rw [hfile] at hstate
      rw [state_of_readState hstate]
      exact hused.known
  · obtain ⟨inbound', keys, heq, hkeys, hused⟩ := h.published _ hmem
    obtain rfl := Fragment.inbound.inj heq
    exact ⟨keys, hused.known, hkeys⟩

theorem Resetting.left {files : Files} {w : World} (h : Resetting { files } w) :
    Left env files w := by
  have hgenerated : w.generated = [] := h.generated
  refine ⟨fun keys hmem => ?_, fun state hstate => ?_, fun inbound hmem => ?_⟩
  · rw [hgenerated] at hmem
    cases hmem
  · obtain hsame | hnone | ⟨state', pending, hstate', hfile⟩ := h.state
    · exact .inl ⟨state, hsame ▸ hstate, rfl⟩
    · rw [hnone] at hstate
      cases hstate
    · rw [hfile] at hstate
      rw [state_of_readState hstate]
      exact .inl ⟨state', hstate', rfl⟩
  · obtain hmem | heq := h.published _ hmem
    · cases hmem
    · cases heq

theorem status_ends (env : Env) (files : Files) :
    Ends (fun w => w = { files }) (statusOutcome env <$> peek (·.files) : Action ApplyOutcome)
      (fun r w => w = { files } ∧ r = .ok (statusOutcome env files)) fun w => w = { files } := by
  rintro s hs
  refine ⟨hs, ?_⟩
  dsimp only [peek]
  rw [hs]

variable {a : Attempt} {files : Files} {ending : Ending} {w : World}

theorem applyRequest_status (sha256 : Identity → String) (h : request.mode = .status) :
    applyRequest sha256 request env = statusOutcome env <$> peek (·.files) := by
  rw [applyRequest, h]

theorem applyRequest_reset (sha256 : Identity → String) (h : request.mode = .reset) :
    applyRequest sha256 request env = resetInbound env := by
  rw [applyRequest, h]

theorem applyRequest_ensure (sha256 : Identity → String) (h : request.mode = .ensure) :
    applyRequest sha256 request env = ensureInbound sha256 request env := by
  rw [applyRequest, h]

/-- A status request changes nothing, and it reports what is on disk. -/
theorem status_of_perform (hmode : a.request.mode = .status)
    (h : a.perform sha256 files = (ending, w)) :
    w = { files } ∧ (ending = .answered (statusOutcome a.env files) ∨ ending = .killed) := by
  have hends := status_ends a.env files
  rw [← applyRequest_status sha256 hmode] at hends
  refine ⟨of_perform_all hends h, ?_⟩
  have hend := of_perform hends h
  cases ending with
  | answered outcome => exact .inl (congrArg Ending.answered (Except.ok.inj hend.2))
  | failed e => cases hend.2
  | killed => exact .inr rfl

theorem ensured_of_perform (hmode : a.request.mode = .ensure)
    (h : a.perform sha256 files = (ending, w)) : Ensured a.request a.env files w := by
  have hends := ensure_ends sha256 a.request a.env files
  rw [← applyRequest_ensure sha256 hmode] at hends
  exact of_perform_all hends h

/-- The keys on disk and the published ones have a known origin. -/
theorem left_of_perform (h : a.perform sha256 files = (ending, w)) : Left a.env files w := by
  cases hmode : a.request.mode with
  | status =>
    rw [(status_of_perform hmode h).1]
    refine ⟨fun _ hmem => ?_, fun state hstate => .inl ⟨state, hstate, rfl⟩, fun _ hmem => ?_⟩
    · cases hmem
    · cases hmem
  | reset =>
    have hends := reset_ends a.env { files }
    rw [← applyRequest_reset sha256 hmode] at hends
    exact (of_perform_all hends h).left
  | ensure => exact (ensured_of_perform hmode h).left

/-- An ensure that answers: what it reports, and which record it leaves. -/
theorem answered_of_perform (hmode : a.request.mode = .ensure) {outcome : ApplyOutcome}
    (h : a.perform sha256 files = (.answered outcome, w)) : Reported files w outcome ∧
      ((inPlace? sha256 a.request a.env files).isSome ∧ w.files = files ∨
        Recorded a.request files w) := by
  have hends := ensure_ends sha256 a.request a.env files
  rw [← applyRequest_ensure sha256 hmode] at hends
  exact (of_perform hends h).2

/-- A request that fails has left the files alone, or the write of its record has failed. -/
theorem failed_of_perform {e : String} (h : a.perform sha256 files = (.failed e, w)) :
    w.files = files ∨ a.request.mode = .ensure ∧ ∃ e, a.env.write .committed = .error e := by
  cases hmode : a.request.mode with
  | status =>
    rw [(status_of_perform hmode h).1]
    exact .inl rfl
  | reset =>
    have hends := reset_ends a.env { files }
    rw [← applyRequest_reset sha256 hmode] at hends
    exact .inl ((of_perform hends h).2 e rfl)
  | ensure =>
    have hends := ensure_ends sha256 a.request a.env files
    rw [← applyRequest_ensure sha256 hmode] at hends
    obtain hfiles | hwrite := (of_perform hends h).2.1
    · exact .inl hfiles
    · exact .inr ⟨rfl, hwrite⟩

/-- An ensure that meets no refusal does not fail. -/
theorem not_smooth_of_failed (hmode : a.request.mode = .ensure) {e : String}
    (h : a.perform sha256 files = (.failed e, w)) : ¬ Smooth sha256 a.request a.env files := by
  have hends := ensure_ends sha256 a.request a.env files
  rw [← applyRequest_ensure sha256 hmode] at hends
  exact (of_perform hends h).2.2

end ChordV.Helper
