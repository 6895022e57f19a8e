import ChordV.Api.Teams

/-!
# One owner for a team

`OneOwner`: the team has exactly one member with the role of the owner, and that member's user
is the one that the team names.

* `Change` lists what a transaction can do.
* The transfers keep `OneOwner`.  Both write all roles of the team and its owner in one
  transaction.
* A plain role update and a removal look at the role when they read the member, and not again
  when they write.  `Current` says that the member has not become the owner in between, and
  `team_owner_kept` that nothing else goes wrong.
* `removal_after_transfer` is a run that goes wrong.
-/

namespace ChordV.Api.Teams

open Lib

/-- The team has one owner, and names it. -/
def OneOwner (s : Store) : Prop :=
  ∀ team, s.team = some team → ∃ id m, s.members.lookup id = some m ∧ m.role = .owner ∧
    m.userId = team.ownerUserId ∧
    ∀ id' m', s.members.lookup id' = some m' → m'.role = .owner → id' = id

/-- The member that is a plain member afterwards, or none at all. -/
def Write.target : Write → Option Nat
  | .saveRole memberId => some memberId
  | .removeMember memberId => some memberId
  | _ => none

/-- No plain role update and no removal commits on the owner. -/
def Current (s : Store) : Event → Prop
  | .commit id _ => ∀ call, s.calls.lookup id = some call → ∀ write, call.stage = .ready write →
      ∀ memberId, write.target = some memberId → ∀ m, s.members.lookup memberId = some m →
      m.role ≠ .owner
  | _ => True

/-! ## The invariant -/

/-- The rows of the team. -/
structure Rows (s : Store) : Prop where
  empty : s.team = none → ∀ id, s.members.lookup id = none
  owner : ∀ {team}, s.team = some team → ∃ id m, s.members.lookup id = some m ∧ m.role = .owner ∧
    m.userId = team.ownerUserId
  one : ∀ {id id' m m'}, s.members.lookup id = some m → s.members.lookup id' = some m' →
    m.role = .owner → m'.role = .owner → id = id'
  fresh : ∀ {id m}, s.members.lookup id = some m → id < s.nextId

theorem Rows.oneOwner {s : Store} (h : Rows s) : OneOwner s := by
  intro team hteam
  obtain ⟨id, m, hm, hrole, huser⟩ := h.owner hteam
  exact ⟨id, m, hm, hrole, huser, fun id' m' hm' hrole' => h.one hm' hm hrole' hrole⟩

/-- A request has read the user of the member that it makes the owner. -/
inductive Call.Knows (memberId : Nat) (userId : String) : Call → Prop
  | read (role : Option Role) :
    Knows memberId userId ⟨.updateTeamMember memberId role, .memberRead userId⟩
  | ready (operation : Operation) :
    Knows memberId userId ⟨operation, .ready (.promote memberId userId)⟩

/-- The user of a member does not change, and no other member gets its id. -/
def Store.Known (s : Store) (memberId : Nat) (userId : String) : Prop :=
  memberId < s.nextId ∧ ∀ m, s.members.lookup memberId = some m → m.userId = userId

/-- The rows are sound, and what a call has read still holds. -/
structure Invariant (s : Store) : Prop where
  rows : Rows s
  known : ∀ {id call memberId userId}, s.calls.lookup id = some call →
    call.Knows memberId userId → s.Known memberId userId

theorem invariant_start : Invariant start where
  rows := {
    empty := fun _ _ => rfl
    owner := fun h => nomatch h
    one := fun h => nomatch h
    fresh := fun h => nomatch h }
  known := fun h => nomatch h

/-! ## Transactions -/

/-- What a transaction can do. -/
inductive Change (s : Store) (write : Write) : Store → Prop
  | added (team : Team) (member : Member) (htarget : write.target = none)
    (hfirst : s.team = none → member.role = .owner ∧ member.userId = team.ownerUserId)
    (hlater : ∀ current, s.team = some current → team = current ∧ member.role = .member) :
    Change s write { s with
      team := some team, members := s.members.insert s.nextId member, nextId := s.nextId + 1 }
  | saved (current team : Team) (htarget : write.target = none) (hteam : s.team = some current)
    (howner : team.ownerUserId = current.ownerUserId) : Change s write { s with team := some team }
  /-- All members stay, with other roles: the owner is the one that the team names. -/
  | moved (team : Team) (ownerId : Nat) (owner : Member) (members : Table Nat Member)
    (htarget : write.target = none) (howner : s.members.lookup ownerId = some owner)
    (huser : owner.userId = team.ownerUserId)
    (hmembers : ∀ id, members.lookup id = (s.members.lookup id).map fun m =>
      { m with role := if id = ownerId then .owner else .member }) :
    Change s write { s with team := some team, members }
  | lost (memberId : Nat) (member : Member) (members : Table Nat Member)
    (htarget : write.target = some memberId) (hmember : s.members.lookup memberId = some member)
    (hsame : ∀ id, id ≠ memberId → members.lookup id = s.members.lookup id)
    (hlost : ∀ m, members.lookup memberId = some m → m.userId = member.userId ∧ m.role = .member) :
    Change s write { s with members }

theorem Role.eq_member_of_ne {role : Role} (h : role ≠ .owner) : role = .member := by
  cases role with
  | owner => exact absurd rfl h
  | member => rfl

/-- Both transfers give one member the role of the owner and the others the other role. -/
theorem lookup_transfer (members : Table Nat Member) (ownerId id : Nat) :
    ((members.updateWhere (fun _ m => m.role = .owner) ({ · with role := .member })).modify ownerId
      ({ · with role := .owner })).lookup id =
    (members.lookup id).map fun m =>
      { m with role := if id = ownerId then .owner else .member } := by
  by_cases hid : id = ownerId
  · subst hid
    rw [Table.lookup_modify_self, Table.lookup_updateWhere, Option.map_map]
    cases members.lookup id with
    | none => rfl
    | some m => by_cases hrole : m.role = .owner <;> simp [hrole]
  · rw [Table.lookup_modify_ne _ _ hid, Table.lookup_updateWhere]
    cases members.lookup id with
    | none => rfl
    | some m =>
      by_cases hrole : m.role = .owner
      · simp [hid, hrole]
      · simp [hid, ← Role.eq_member_of_ne hrole]

theorem lookup_promote (members : Table Nat Member) (ownerId id : Nat) :
    ((members.modify ownerId ({ · with role := .owner })).updateWhere
      (fun id _ => id ≠ ownerId) ({ · with role := .member })).lookup id =
    (members.lookup id).map fun m =>
      { m with role := if id = ownerId then .owner else .member } := by
  rw [Table.lookup_updateWhere]
  by_cases hid : id = ownerId
  · subst hid
    rw [Table.lookup_modify_self, Option.map_map]
    simp [Function.comp_def]
  · rw [Table.lookup_modify_ne _ _ hid]
    simp [hid]

theorem commit_change {s s' : Store} {elsewhere : Bool} {write : Write}
    (hknown : ∀ memberId userId, write = .promote memberId userId → s.Known memberId userId)
    (hcommit : commit s elsewhere write = some s') : Change s write s' := by
  cases write with
  | createTeam name ownerUserId active =>
    simp only [commit] at hcommit
    split at hcommit
    · cases hcommit
    · next hfree =>
      have hnone : s.team = none := by
        cases hteam : s.team with
        | none => rfl
        | some team => simp [hteam] at hfree
      cases hcommit
      refine .added _ _ rfl (fun _ => ⟨rfl, rfl⟩) fun current hteam => ?_
      rw [hnone] at hteam
      cases hteam
  | saveTeam name active =>
    simp only [commit, Option.bind_eq_bind, Option.bind_eq_some_iff] at hcommit
    obtain ⟨team, hteam, hcommit⟩ := hcommit
    cases hcommit
    exact .saved team _ rfl hteam rfl
  | transfer ownerUserId name active =>
    simp only [commit, Option.bind_eq_bind, Option.bind_eq_some_iff] at hcommit
    obtain ⟨team, hteam, ⟨ownerId, owner⟩, hfind, hcommit⟩ := hcommit
    cases hcommit
    have huser : owner.userId = ownerUserId := by
      have hmatch := List.find?_some hfind
      exact of_decide_eq_true hmatch
    exact .moved _ ownerId owner _ rfl (Table.mem_pairs.1 (List.mem_of_find?_eq_some hfind)) huser
      (lookup_transfer s.members ownerId)
  | addMember userId =>
    simp only [commit] at hcommit
    split at hcommit
    · cases hcommit
    · next hfree =>
      cases hteam : s.team with
      | none => simp [hteam] at hfree
      | some team =>
        cases hcommit
        have hchange : Change s (.addMember userId) { s with
            team := some team
            members := s.members.insert s.nextId { userId, role := .member }
            nextId := s.nextId + 1 } := by
          refine .added _ _ rfl (fun hnone => ?_) fun current hcurrent => ?_
          · rw [hteam] at hnone
            cases hnone
          · rw [hteam] at hcurrent
            exact ⟨Option.some.inj hcurrent, rfl⟩
        rw [← hteam] at hchange
        exact hchange
  | promote memberId userId =>
    simp only [commit, Option.bind_eq_bind, Option.bind_eq_some_iff] at hcommit
    obtain ⟨team, hteam, member, hmember, hcommit⟩ := hcommit
    cases hcommit
    exact .moved _ memberId member _ rfl hmember ((hknown memberId userId rfl).2 member hmember)
      (lookup_promote s.members memberId)
  | saveRole memberId =>
    simp only [commit, Option.bind_eq_bind, Option.bind_eq_some_iff] at hcommit
    obtain ⟨member, hmember, hcommit⟩ := hcommit
    cases hcommit
    refine .lost memberId member _ rfl hmember (fun id hid => AList.lookup_insert_ne hid) ?_
    intro m hm
    rw [AList.lookup_insert] at hm
    cases hm
    exact ⟨rfl, rfl⟩
  | removeMember memberId =>
    simp only [commit, Option.bind_eq_bind, Option.bind_eq_some_iff] at hcommit
    obtain ⟨member, hmember, hcommit⟩ := hcommit
    cases hcommit
    refine .lost memberId member _ rfl hmember (fun id hid => AList.lookup_erase_ne hid) ?_
    intro m hm
    rw [AList.lookup_erase] at hm
    cases hm

variable {s s' : Store} {write : Write}

theorem Change.calls (h : Change s write s') : s'.calls = s.calls := by
  cases h <;> rfl

/-- A transaction changes no user of a member. -/
theorem Change.known (h : Change s write s') {memberId : Nat} {userId : String}
    (hknown : s.Known memberId userId) : s'.Known memberId userId := by
  cases h with
  | added team member htarget hfirst hlater =>
    refine ⟨Nat.lt_succ_of_lt hknown.1, fun m hm => ?_⟩
    rw [AList.lookup_insert_ne (Nat.ne_of_lt hknown.1)] at hm
    exact hknown.2 m hm
  | saved current team htarget hteam howner => exact hknown
  | moved team ownerId owner members htarget howner huser hmembers =>
    refine ⟨hknown.1, fun m hm => ?_⟩
    rw [hmembers] at hm
    obtain ⟨m', hm', rfl⟩ := Option.map_eq_some_iff.1 hm
    exact hknown.2 m' hm'
  | lost lostId member members htarget hmember hsame hlost =>
    refine ⟨hknown.1, fun m hm => ?_⟩
    by_cases hid : memberId = lostId
    · subst hid
      rw [(hlost m hm).1]
      exact hknown.2 member hmember
    · rw [hsame memberId hid] at hm
      exact hknown.2 m hm

/-- A transaction that does not take the owner away keeps the rows of the team. -/
theorem Change.rows (h : Change s write s') (hrows : Rows s)
    (hcurrent : ∀ memberId, write.target = some memberId →
      ∀ m, s.members.lookup memberId = some m → m.role ≠ .owner) : Rows s' := by
  cases h with
  | added team member htarget hfirst hlater =>
    cases hteam : s.team with
    | none =>
      obtain ⟨hrole, huser⟩ := hfirst hteam
      have honly : ∀ {id m}, (s.members.insert s.nextId member).lookup id = some m →
          id = s.nextId := by
        intro id m hm
        rcases Table.lookup_of_insert hm with ⟨hid, _⟩ | hold
        · exact hid
        · rw [hrows.empty hteam id] at hold
          cases hold
      exact {
        empty := fun hnone => nomatch hnone
        owner := fun hsome => by
          cases hsome
          exact ⟨s.nextId, member, AList.lookup_insert _, hrole, huser⟩
        one := fun hm hm' _ _ => (honly hm).trans (honly hm').symm
        fresh := fun hm => by
          rw [honly hm]
          exact Nat.lt_succ_self _ }
    | some current =>
      obtain ⟨rfl, hrole⟩ := hlater current hteam
      have hold : ∀ {id m}, (s.members.insert s.nextId member).lookup id = some m →
          m.role = .owner → s.members.lookup id = some m := by
        intro id m hm hm_role
        rcases Table.lookup_of_insert hm with ⟨_, rfl⟩ | hold
        · rw [hrole] at hm_role
          cases hm_role
        · exact hold
      exact {
        empty := fun hnone => nomatch hnone
        owner := fun hsome => by
          cases hsome
          obtain ⟨id, m, hm, hm_role, huser⟩ := hrows.owner hteam
          refine ⟨id, m, ?_, hm_role, huser⟩
          exact (AList.lookup_insert_ne (Nat.ne_of_lt (hrows.fresh hm))).trans hm
        one := fun hm hm' hm_role hm_role' =>
          hrows.one (hold hm hm_role) (hold hm' hm_role') hm_role hm_role'
        fresh := fun hm => by
          rcases Table.lookup_of_insert hm with ⟨rfl, _⟩ | hm
          · exact Nat.lt_succ_self _
          · exact Nat.lt_succ_of_lt (hrows.fresh hm) }
  | saved current team htarget hteam howner =>
    exact {
      empty := fun hnone => nomatch hnone
      owner := fun hsome => by
        cases hsome
        rw [howner]
        exact hrows.owner hteam
      one := hrows.one
      fresh := hrows.fresh }
  | moved team ownerId owner members htarget howner huser hmembers =>
    have hid : ∀ {id m}, members.lookup id = some m → m.role = .owner → id = ownerId := by
      intro id m hm hrole
      rw [hmembers] at hm
      obtain ⟨m', _, rfl⟩ := Option.map_eq_some_iff.1 hm
      by_contra hne
      simp [hne] at hrole
    exact {
      empty := fun hnone => nomatch hnone
      owner := fun hsome => by
        cases hsome
        refine ⟨ownerId, { owner with role := .owner }, ?_, rfl, huser⟩
        rw [hmembers, howner]
        simp
      one := fun hm hm' hrole hrole' => (hid hm hrole).trans (hid hm' hrole').symm
      fresh := fun hm => by
        rw [hmembers] at hm
        obtain ⟨m', hm', _⟩ := Option.map_eq_some_iff.1 hm
        exact hrows.fresh hm' }
  | lost memberId member members htarget hmember hsame hlost =>
    have hold : ∀ {id m}, members.lookup id = some m → m.role = .owner →
        s.members.lookup id = some m := by
      intro id m hm hrole
      by_cases hid : id = memberId
      · subst hid
        rw [(hlost m hm).2] at hrole
        cases hrole
      · rwa [hsame id hid] at hm
    have hne := hcurrent memberId htarget member hmember
    exact {
      empty := fun hnone => by
        rw [hrows.empty hnone memberId] at hmember
        cases hmember
      owner := fun hteam => by
        obtain ⟨id, m, hm, hrole, huser⟩ := hrows.owner hteam
        have hid : id ≠ memberId := by
          rintro rfl
          rw [hm] at hmember
          cases hmember
          exact hne hrole
        exact ⟨id, m, (hsame id hid).trans hm, hrole, huser⟩
      one := fun hm hm' hrole hrole' => hrows.one (hold hm hrole) (hold hm' hrole') hrole hrole'
      fresh := fun {id m} hm => by
        by_cases hid : id = memberId
        · rw [hid]
          exact hrows.fresh hmember
        · rw [hsame id hid] at hm
          exact hrows.fresh hm }

/-- A transaction that takes the owner away leaves the team without one. -/
theorem Change.not_oneOwner (h : Change s write s') (hrows : Rows s) {memberId : Nat} {m : Member}
    (htarget : write.target = some memberId) (hm : s.members.lookup memberId = some m)
    (hrole : m.role = .owner) : ¬ OneOwner s' := by
  cases h with
  | lost lostId member members hlostId hmember hsame hlost =>
    have hid : lostId = memberId := Option.some.inj (hlostId.symm.trans htarget)
    subst hid
    intro hone
    have hteam : ∃ team, s.team = some team := by
      cases hteam : s.team with
      | some team => exact ⟨team, rfl⟩
      | none =>
        rw [hrows.empty hteam lostId] at hm
        cases hm
    obtain ⟨team, hteam⟩ := hteam
    obtain ⟨id, m', hm', hrole', -⟩ := hone team hteam
    by_cases hid : id = lostId
    · subst hid
      rw [(hlost m' hm').2] at hrole'
      cases hrole'
    · have hm'_old : s.members.lookup id = some m' := (hsame id hid).symm.trans hm'
      exact hid (hrows.one hm'_old hm hrole' hrole)
  | added _ _ hnone | saved _ _ hnone | moved _ _ _ _ hnone =>
    rw [hnone] at htarget
    cases htarget

/-! ## Steps -/

/-- Only the last read of `updateTeamMember` leads to a transfer to the user that it has read. -/
theorem readNext_promote {goesOn : Bool} {operation : Operation} {stage : Stage} {memberId : Nat}
    {userId : String}
    (h : readNext s goesOn operation stage = some (.ready (.promote memberId userId))) :
    ∃ role, operation = .updateTeamMember memberId role ∧ stage = .memberRead userId := by
  unfold readNext at h
  simp only [Option.bind_eq_bind] at h
  split at h
  case h_14 =>
    split at h
    · cases h
      exact ⟨_, rfl, rfl⟩
    · cases h
  all_goals grind [Option.bind_eq_some_iff]

/-- What a request knows after a read, it has read from the store or knew before. -/
theorem readNext_known {goesOn : Bool} {call : Call} {stage : Stage} (hrows : Rows s)
    (hknown : ∀ {memberId userId}, call.Knows memberId userId → s.Known memberId userId)
    (hread : readNext s goesOn call.operation call.stage = some stage) {memberId : Nat}
    {userId : String} (hknows : Call.Knows memberId userId { call with stage }) :
    s.Known memberId userId := by
  obtain ⟨operation, before⟩ := call
  dsimp only at hread hknows
  cases hknows with
  | read role =>
    cases before with
    | started =>
      simp only [readNext, Option.bind_eq_bind, Option.bind_eq_some_iff] at hread
      obtain ⟨member, hmember, hread⟩ := hread
      have huser : member.userId = userId := by
        split at hread
        · cases hread
          rfl
        · split at hread <;> cases hread
      refine ⟨hrows.fresh hmember, fun m hm => ?_⟩
      rw [hmember] at hm
      cases hm
      exact huser
    | memberRead userId' => simp [readNext] at hread
    | _ => cases hread
  | ready =>
    obtain ⟨role, rfl, rfl⟩ := readNext_promote hread
    exact hknown (.read role)

/-- The requests change, the rows do not. -/
theorem Invariant.with_calls (h : Invariant s) {calls : Table Nat Call}
    (hcalls : ∀ {id call memberId userId}, calls.lookup id = some call →
      call.Knows memberId userId → s.Known memberId userId) : Invariant { s with calls } where
  rows := {
    empty := h.rows.empty
    owner := h.rows.owner
    one := h.rows.one
    fresh := h.rows.fresh }
  known := hcalls

theorem Invariant.endCall (h : Invariant s) (id : Nat) : Invariant (s.endCall id) :=
  h.with_calls fun hcall => h.known (Table.lookup_of_erase hcall)

theorem Invariant.readCall (h : Invariant s) {id : Nat} {call : Call} (goesOn : Bool)
    (hcall : s.calls.lookup id = some call) : Invariant (readCall s id goesOn call) := by
  unfold Teams.readCall
  split
  · next stage hread =>
    refine h.with_calls fun hlookup hknows => ?_
    rcases Table.lookup_of_insert hlookup with ⟨_, rfl⟩ | hlookup
    · exact readNext_known h.rows (h.known hcall) hread hknows
    · exact h.known hlookup hknows
  · exact h.endCall id

/-- What a commit does, if it does something. -/
theorem Invariant.commit_change (h : Invariant s) {id : Nat} {call : Call} {elsewhere : Bool}
    (hcall : s.calls.lookup id = some call) (hready : call.stage = .ready write)
    (hcommit : commit s elsewhere write = some s') : Change s write s' := by
  refine Teams.commit_change (fun memberId userId hwrite => h.known hcall ?_) hcommit
  obtain ⟨operation, stage⟩ := call
  subst hwrite
  subst hready
  exact .ready operation

theorem Invariant.commitCall (h : Invariant s) {id : Nat} {call : Call} (elsewhere : Bool)
    (hcall : s.calls.lookup id = some call) (hcurrent : Current s (.commit id elsewhere)) :
    Invariant (commitCall s id elsewhere call) := by
  unfold Teams.commitCall
  split
  · next write hready =>
    cases hcommit : commit s elsewhere write with
    | none => exact h.endCall id
    | some s' =>
      have hchange := h.commit_change hcall hready hcommit
      have hnext : Invariant s' := {
        rows := hchange.rows h.rows (hcurrent call hcall write hready)
        known := fun hlookup hknows => by
          rw [hchange.calls] at hlookup
          exact hchange.known (h.known hlookup hknows) }
      exact hnext.endCall id
  · exact h

theorem step_invariant {event : Event} (h : Invariant s) (hcurrent : Current s event) :
    Invariant (step s event) := by
  cases event with
  | start id operation =>
    simp only [step]
    split
    · refine h.with_calls fun hlookup hknows => ?_
      rcases Table.lookup_of_insert hlookup with ⟨_, rfl⟩ | hlookup
      · cases hknows
      · exact h.known hlookup hknows
    · exact h
  | read id goesOn =>
    simp only [step]
    cases hcall : s.calls.lookup id with
    | none => exact h
    | some call => exact h.readCall goesOn hcall
  | commit id elsewhere =>
    simp only [step]
    cases hcall : s.calls.lookup id with
    | none => exact h
    | some call => exact h.commitCall elsewhere hcall hcurrent
  | fail id => exact h.endCall id

/-- A plain role update and a removal do not look at the role again. -/
theorem commit_isSome_of_target (elsewhere : Bool) {memberId : Nat} {m : Member}
    (htarget : write.target = some memberId) (hm : s.members.lookup memberId = some m) :
    (commit s elsewhere write).isSome := by
  cases write with
  | saveRole id =>
    cases htarget
    simp [commit, hm]
  | removeMember id =>
    cases htarget
    simp [commit, hm]
  | _ => cases htarget

/-- One step keeps the owner exactly if it does not take the owner away. -/
theorem step_oneOwner_iff {event : Event} (h : Invariant s) :
    OneOwner (step s event) ↔ Current s event := by
  refine ⟨fun hone => ?_, fun hcurrent => (step_invariant h hcurrent).rows.oneOwner⟩
  cases event with
  | commit id elsewhere =>
    intro call hcall write hready memberId htarget m hm hrole
    obtain ⟨s', hcommit⟩ :=
      Option.isSome_iff_exists.1 (commit_isSome_of_target elsewhere htarget hm)
    have hnot := (h.commit_change hcall hready hcommit).not_oneOwner h.rows htarget hm hrole
    have hstep : step s (.commit id elsewhere) = s'.endCall id := by
      simp [step, hcall, commitCall, hready, hcommit]
    rw [hstep] at hone
    exact hnot hone
  | _ => trivial

/-! ## Runs -/

/-- After every step of a run the team has one owner, and names it, exactly if no plain role
update and no removal in it commits on the owner. -/
theorem team_owner_kept (events : List Event) :
    Machine.Meets step (fun s event => OneOwner (step s event)) start events ↔
      Machine.Meets step Current start events :=
  Machine.meets_congr_of_meets (I := Invariant) (fun _ _ => step_invariant)
    (fun _ _ => step_oneOwner_iff) invariant_start events

/-- A team of an owner and a member, and the removal of the member has begun. -/
def removalBegun : List Event :=
  [.start 0 (.createTeam "team" "owner" none),
    .read 0 true, .read 0 true, .read 0 true, .read 0 true, .commit 0 false,
    .start 1 (.createTeamMember "member" none),
    .read 1 true, .read 1 true, .read 1 true, .read 1 true, .commit 1 false,
    .start 2 (.deleteTeamMember 1), .read 2 true]

/-- The member becomes the owner before the removal commits. -/
def removalAfterTransfer : List Event :=
  removalBegun ++ [.start 3 (.updateTeamMember 1 (some .owner)), .read 3 true, .read 3 true,
    .commit 3 false, .commit 2 false]

/-- The removal takes the new owner away. -/
theorem removal_after_transfer :
    ¬ OneOwner (Machine.run step start removalAfterTransfer) := by
  intro h
  have hteam : (Machine.run step start removalAfterTransfer).team =
      some { name := "team", ownerUserId := "member", active := true } := by decide +kernel
  have hmembers : (Machine.run step start removalAfterTransfer).members.pairs =
      [(0, { userId := "owner", role := .member })] := by decide +kernel
  obtain ⟨id, m, hm, hrole, -⟩ := h _ hteam
  have hmem := Table.mem_pairs.2 hm
  rw [hmembers] at hmem
  cases List.mem_singleton.1 hmem
  cases hrole

end ChordV.Api.Teams
