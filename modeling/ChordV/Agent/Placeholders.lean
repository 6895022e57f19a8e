import ChordV.Agent.Handoff

/-!
# The address column as text

`Address` keeps a parked address apart from a real one by a constructor.  The source keeps both
in one unique text column, where a parked address is a placeholder.

* `parkedAs` is the placeholder, and `asText` a store whose addresses are the texts of the
  column.  `applyDesiredUsersText` parks with placeholders under the unique index.
* `Plain` says that a binding id has no colon and an address does not start as a placeholder.
  Then placeholders collide with nothing, and `applyDesiredUsersText_asText` says that the two
  transactions do the same.
* `handover_is_exact` is what a list of newer users does, in the texts of the column.
-/

namespace ChordV.Agent

open Lib Fallible

/-! ## Placeholders -/

/-- `reassignPlaceholder`. -/
def reassignPlaceholder : String := "\x00reassign:"

/-- `parkedAs`. -/
def parkedAs (bindingId email : String) : String :=
  reassignPlaceholder ++ bindingId ++ ":" ++ email

/-- No placeholder has the binding id twice, and no address is read as a placeholder. -/
structure Plain (bindingId email : String) : Prop where
  bindingId : ':' ∉ bindingId.toList
  email : ¬reassignPlaceholder.toList <+: email.toList

theorem toList_parkedAs (b e : String) :
    (parkedAs b e).toList = reassignPlaceholder.toList ++ (b.toList ++ ':' :: e.toList) := by
  simp [parkedAs]

theorem placeholder_parkedAs (b e : String) :
    reassignPlaceholder.toList <+: (parkedAs b e).toList := by
  rw [toList_parkedAs]
  exact List.prefix_append _ _

theorem split_at_colon {b b' e e' : List Char} (hb : ':' ∉ b) (hb' : ':' ∉ b')
    (h : b ++ ':' :: e = b' ++ ':' :: e') : b = b' ∧ e = e' := by
  induction b generalizing b' with
  | nil =>
    cases b' with
    | nil => exact ⟨rfl, (List.cons.inj h).2⟩
    | cons c b' =>
      have hc := (List.cons.inj h).1
      exact absurd (hc ▸ List.mem_cons_self) hb'
  | cons c b ih =>
    cases b' with
    | nil =>
      have hc := (List.cons.inj h).1
      exact absurd (hc ▸ List.mem_cons_self) hb
    | cons c' b' =>
      obtain ⟨rfl, hrest⟩ := List.cons.inj h
      obtain ⟨rfl, rfl⟩ := ih (fun hmem => hb (List.mem_cons_of_mem _ hmem))
        (fun hmem => hb' (List.mem_cons_of_mem _ hmem)) hrest
      exact ⟨rfl, rfl⟩

/-- Placeholders of plain bindings collide only when they stand for the same. -/
theorem parkedAs_inj {b b' e e' : String} (hb : ':' ∉ b.toList) (hb' : ':' ∉ b'.toList)
    (h : parkedAs b e = parkedAs b' e') : b = b' ∧ e = e' := by
  have hlists := congrArg String.toList h
  rw [toList_parkedAs, toList_parkedAs] at hlists
  obtain ⟨hbs, hes⟩ := split_at_colon hb hb' (List.append_cancel_left hlists)
  exact ⟨String.toList_injective hbs, String.toList_injective hes⟩

/-! ## Stores as texts -/

/-- The text of the address column. -/
def Address.column (bindingId : String) : Address → String
  | .real email => email
  | .parked email => parkedAs bindingId email

/-- A row whose address is the text of the column. -/
def UserRow.asText (bindingId : String) (row : UserRow) : UserRow :=
  { row with address := .real (row.address.column bindingId) }

/-- The text of a plain user's address is the address of a row only if the row holds it. -/
theorem column_eq_iff {b email : String} {address : Address}
    (h : ¬reassignPlaceholder.toList <+: email.toList) :
    address.column b = email ↔ address = .real email := by
  cases address with
  | real email' => exact ⟨fun heq => congrArg _ heq, fun heq => Address.real.inj heq⟩
  | parked email' =>
    constructor
    · rintro rfl
      exact absurd (placeholder_parkedAs b email') h
    · exact nofun

namespace Store

/-- The store with the texts of the address column. -/
def asText (s : Store) : Store := { s with rows := s.rows.mapRows UserRow.asText }

/-- `UPDATE desired_users_v2 SET email = ?` for one binding, under the unique index. -/
def setEmail (bindingId email : String) (s : Store) : Except Failure Store :=
  if emailTaken s bindingId email then .error (.uniqueEmail email)
  else .ok { s with
    rows := s.rows.modify bindingId fun row => { row with address := .real email } }

/-- `parkContestedEmailsTx` on texts. -/
def parkContestedText (users : List DesiredUser) (omitted : String → Bool) (s : Store) :
    Except Failure Store := do
  let applying ← applyingUsers users s
  let contested := s.rows.pairs.filter fun p => parks applying omitted p.1 p.2
  contested.foldlM (fun s p => setEmail p.1 (parkedAs p.1 p.2.address.original) s) s

/-- `ApplyDesiredUsers` on texts. -/
def applyDesiredUsersText (users : List DesiredUser) (s : Store) : Except Failure Store := do
  let s ← parkContestedText users (omittedBy users) s
  upsertAllTx users s

variable {s s' : Store} {users : List DesiredUser}

/-- All bindings and addresses of the rows are plain. -/
def PlainRows (s : Store) : Prop :=
  ∀ b row, s.rows.lookup b = some row → Plain b row.address.original

/-- So are those of a list. -/
def PlainUsers (users : List DesiredUser) : Prop :=
  ∀ user ∈ users, Plain user.bindingId user.email

theorem lookup_asText (s : Store) (b : String) :
    s.asText.rows.lookup b = (s.rows.lookup b).map (UserRow.asText b) :=
  Table.lookup_mapRows s.rows UserRow.asText b

theorem lookup_asText_eq_some {b : String} {row : UserRow} :
    s.asText.rows.lookup b = some row ↔
      ∃ old, s.rows.lookup b = some old ∧ row = old.asText b := by
  rw [lookup_asText, Option.map_eq_some_iff]
  exact exists_congr fun old => and_congr_right fun _ => eq_comm

theorem emailTaken_iff {b email : String} : emailTaken s b email = true ↔
    ∃ b' row, s.rows.lookup b' = some row ∧ b' ≠ b ∧ row.address = .real email := by
  simp [emailTaken, List.any_eq_true, Table.mem_pairs]

/-- A plain address is taken in the texts if a row holds it. -/
theorem emailTaken_asText {b email : String} (h : ¬reassignPlaceholder.toList <+: email.toList) :
    emailTaken s.asText b email = emailTaken s b email := by
  rw [Bool.eq_iff_iff, emailTaken_iff, emailTaken_iff]
  constructor
  · rintro ⟨b', row, hrow, hne, haddress⟩
    obtain ⟨old, hold, rfl⟩ := lookup_asText_eq_some.1 hrow
    exact ⟨b', old, hold, hne, (column_eq_iff h).1 (Address.real.inj haddress)⟩
  · rintro ⟨b', row, hrow, hne, haddress⟩
    refine ⟨b', row.asText b', lookup_asText_eq_some.2 ⟨row, hrow, rfl⟩, hne, ?_⟩
    exact congrArg Address.real ((column_eq_iff h).2 haddress)

/-- The placeholder of a binding is never taken by another one. -/
theorem emailTaken_parkedAs {b email : String} (hplain : s.PlainRows) (hb : ':' ∉ b.toList) :
    emailTaken s.asText b (parkedAs b email) = false := by
  rw [Bool.eq_false_iff, Ne, emailTaken_iff]
  rintro ⟨b', row, hrow, hne, haddress⟩
  obtain ⟨old, hold, rfl⟩ := lookup_asText_eq_some.1 hrow
  have hcolumn : old.address.column b' = parkedAs b email := Address.real.inj haddress
  have hplain' := hplain b' old hold
  cases hoaddress : old.address with
  | real email' =>
    rw [hoaddress] at hcolumn hplain'
    have hemail : email' = parkedAs b email := hcolumn
    exact hplain'.email (show reassignPlaceholder.toList <+: email'.toList from
      hemail ▸ placeholder_parkedAs b email)
  | parked email' =>
    rw [hoaddress] at hcolumn
    exact hne (parkedAs_inj hplain'.bindingId hb hcolumn).1

/-! ## The transactions on texts -/

theorem asText_insert (s : Store) (b : String) (row : UserRow) :
    ({ s with rows := s.rows.insert b row } : Store).asText =
      { s.asText with rows := s.asText.rows.insert b (row.asText b) } := by
  unfold asText
  dsimp only
  rw [Table.mapRows_insert]

theorem asText_modify (s : Store) {b : String} {f g : UserRow → UserRow}
    (h : ∀ row, s.rows.lookup b = some row → (f row).asText b = g (row.asText b)) :
    ({ s with rows := s.rows.modify b f } : Store).asText =
      { s.asText with rows := s.asText.rows.modify b g } := by
  unfold asText
  dsimp only
  rw [Table.mapRows_modify _ _ h]

theorem freshRow_asText (b : String) (user : DesiredUser) (r q a : Nat) :
    (freshRow user r q a).asText b = freshRow user r q a := rfl

theorem updatedRow_asText {b : String} {row : UserRow} {user : DesiredUser} (r q a : Nat)
    (h : ¬reassignPlaceholder.toList <+: user.email.toList) :
    updatedRow (row.asText b) user r q a = (updatedRow row user r q a).asText b := by
  have hiff : (row.asText b).address = .real user.email ↔ row.address = .real user.email :=
    ⟨fun heq => (column_eq_iff h).1 (Address.real.inj heq),
      fun heq => congrArg Address.real ((column_eq_iff h).2 heq)⟩
  unfold updatedRow
  simp only [hiff]
  split <;> rfl

theorem upsertDesiredUserTx_asText {user : DesiredUser} (h : Plain user.bindingId user.email) :
    upsertDesiredUserTx user s.asText = (upsertDesiredUserTx user s).map asText := by
  unfold upsertDesiredUserTx
  rw [except_map_bind, lookup_asText, emailTaken_asText h.email]
  refine bind_congr fun revision _ => ?_
  cases hrow : s.rows.lookup user.bindingId with
  | none =>
    simp only [Option.map_none, except_map_bind]
    refine bind_congr fun quota _ => bind_congr fun allowance _ => ?_
    split
    · rfl
    · refine congrArg Except.ok ?_
      rw [asText_insert s user.bindingId (freshRow user revision quota allowance), freshRow_asText]
  | some row =>
    simp only [Option.map_some]
    change (if (!upsertApplies row user revision) = true then _ else _) = _
    split
    · rfl
    · simp only [except_map_bind]
      refine bind_congr fun quota _ => bind_congr fun allowance _ => ?_
      split
      · rfl
      · refine congrArg Except.ok ?_
        rw [updatedRow_asText revision quota allowance h.email, ← asText_insert]

theorem upsertAllTx_asText (h : PlainUsers users) :
    upsertAllTx users s.asText = (upsertAllTx users s).map asText := by
  induction users generalizing s with
  | nil => rfl
  | cons user users ih =>
    unfold upsertAllTx at ih ⊢
    rw [List.foldlM_cons, List.foldlM_cons, except_map_bind,
      upsertDesiredUserTx_asText (h user List.mem_cons_self)]
    cases upsertDesiredUserTx user s with
    | error e => rfl
    | ok t => exact ih fun other hother => h other (List.mem_cons_of_mem _ hother)

theorem applyingUsers_asText : applyingUsers users s.asText = applyingUsers users s := by
  have htakes : ∀ user, takesAddress s.asText user = takesAddress s user := by
    intro user
    unfold takesAddress
    rw [lookup_asText]
    cases s.rows.lookup user.bindingId <;> rfl
  unfold applyingUsers
  rw [funext htakes]

/-- A row is parked in the texts if it is parked. -/
theorem parks_asText {applying : List DesiredUser} {omitted : String → Bool} {b : String}
    {row : UserRow} (h : PlainUsers applying) :
    parks applying omitted b (row.asText b) = parks applying omitted b row := by
  unfold parks UserRow.asText
  cases haddress : row.address with
  | real email => rfl
  | parked email =>
    have hnone : applying.find? (·.email = parkedAs b email) = none := by
      refine List.find?_eq_none.2 fun user hmem heq => (h user hmem).email ?_
      rw [of_decide_eq_true heq]
      exact placeholder_parkedAs b email
    dsimp only [Address.column]
    rw [hnone, Bool.false_and]

/-- What is left to park of the pairs that were read. -/
theorem parkPairs_asText {pairs : List (String × UserRow)} (hrows : s.PlainRows)
    (hpairs : ∀ p ∈ pairs, ∃ email, p.2.address = .real email ∧
      ∀ row, s.rows.lookup p.1 = some row → row.address.original = email)
    (hkeys : ∀ p ∈ pairs, (s.rows.lookup p.1).isSome) :
    (pairs.map fun p => (p.1, p.2.asText p.1)).foldlM
        (fun s p => setEmail p.1 (parkedAs p.1 p.2.address.original) s) s.asText =
      .ok
        (asText { s with rows := pairs.foldl (fun rows p => rows.modify p.1 parkRow) s.rows }) := by
  induction pairs generalizing s with
  | nil => rfl
  | cons p pairs ih =>
    obtain ⟨email, haddress, horiginal⟩ := hpairs p List.mem_cons_self
    obtain ⟨row, hrow⟩ := Option.isSome_iff_exists.1 (hkeys p List.mem_cons_self)
    have hfree : emailTaken s.asText p.1 (parkedAs p.1 email) = false :=
      emailTaken_parkedAs hrows (hrows p.1 row hrow).bindingId
    have horiginal' : (p.2.asText p.1).address.original = email := by
      simp [UserRow.asText, haddress, Address.column, Address.original]
    have hset : setEmail p.1 (parkedAs p.1 (p.2.asText p.1).address.original) s.asText =
        .ok ({ s with rows := s.rows.modify p.1 parkRow } : Store).asText := by
      unfold setEmail
      rw [horiginal', hfree, if_neg Bool.false_ne_true, asText_modify]
      intro row' hrow'
      simp [parkRow, UserRow.asText, Address.column, horiginal row' hrow']
    rw [List.map_cons, List.foldlM_cons, hset, ok_bind]
    have hlookup : ∀ b row', (s.rows.modify p.1 parkRow).lookup b = some row' →
        ∃ old, s.rows.lookup b = some old ∧ row'.address.original = old.address.original := by
      intro b row' hrow'
      rw [Table.lookup_modify] at hrow'
      split at hrow'
      · next heq =>
        obtain ⟨old, hold, rfl⟩ := Option.map_eq_some_iff.1 hrow'
        exact ⟨old, heq ▸ hold, rfl⟩
      · exact ⟨row', hrow', rfl⟩
    refine ih (s := { s with rows := s.rows.modify p.1 parkRow }) ?_ ?_ ?_
    · intro b row' hrow'
      obtain ⟨old, hold, heq⟩ := hlookup b row' hrow'
      exact heq ▸ hrows b old hold
    · intro q hq
      obtain ⟨email', haddress', horiginal''⟩ := hpairs q (List.mem_cons_of_mem _ hq)
      refine ⟨email', haddress', fun row' hrow' => ?_⟩
      obtain ⟨old, hold, heq⟩ := hlookup q.1 row' hrow'
      exact heq.trans (horiginal'' old hold)
    · intro q hq
      have hsome := hkeys q (List.mem_cons_of_mem _ hq)
      dsimp only
      rw [Table.lookup_modify]
      split
      · next heq =>
        rw [Option.isSome_map]
        exact heq ▸ hsome
      · exact hsome

theorem parkContestedText_asText {omitted : String → Bool} (hrows : s.PlainRows)
    (husers : PlainUsers users) : parkContestedText users omitted s.asText =
      (parkContestedEmailsTx users omitted s).map asText := by
  unfold parkContestedText parkContestedEmailsTx
  rw [applyingUsers_asText, except_map_bind]
  refine bind_congr fun applying happlying => ?_
  have happlyingPlain : PlainUsers applying := by
    intro user hmem
    rw [filterM_eq_ok happlying] at hmem
    exact husers user (List.mem_filter.1 hmem).1
  have hpairs : (s.asText.rows.pairs.filter fun p => parks applying omitted p.1 p.2) =
      (s.rows.pairs.filter fun p => parks applying omitted p.1 p.2).map fun p =>
        (p.1, p.2.asText p.1) := by
    unfold asText
    rw [Table.pairs_mapRows, List.filter_map]
    refine congrArg (List.map _) (List.filter_congr fun p _ => ?_)
    exact parks_asText happlyingPlain
  dsimp only
  rw [hpairs, parkPairs_asText hrows]
  · rw [List.foldl_filter]
    rfl
  · rintro ⟨b, row⟩ hp
    obtain ⟨hmem, hparks⟩ := List.mem_filter.1 hp
    have hrow := Table.mem_pairs.1 hmem
    cases haddress : row.address with
    | real email =>
      refine ⟨email, rfl, fun row' hrow' => ?_⟩
      rw [← Option.some.inj (hrow.symm.trans hrow'), haddress]
      rfl
    | parked email => simp [parks, haddress] at hparks
  · rintro ⟨b, row⟩ hp
    have hrow := Table.mem_pairs.1 (List.mem_filter.1 hp).1
    simp [hrow]

/-- On plain rows and users the transaction does to the texts what it does to the addresses. -/
theorem applyDesiredUsersText_asText (hrows : s.PlainRows) (husers : PlainUsers users) :
    applyDesiredUsersText users s.asText = (applyDesiredUsers users s).map asText := by
  unfold applyDesiredUsersText applyDesiredUsers
  rw [parkContestedText_asText hrows husers, except_map_bind]
  cases parkContestedEmailsTx users (omittedBy users) s with
  | error e => rfl
  | ok t => exact upsertAllTx_asText husers

/-! ## The hand-over on texts -/

/-- On plain rows one holder for each address is one holder for each text. -/
theorem OneHolder.asText (hone : s.OneHolder) (hrows : s.PlainRows) : s.asText.OneHolder := by
  intro b b' row row' email hrow hrow' haddress haddress'
  obtain ⟨old, hold, rfl⟩ := lookup_asText_eq_some.1 hrow
  obtain ⟨old', hold', rfl⟩ := lookup_asText_eq_some.1 hrow'
  have hcolumn : old.address.column b = old'.address.column b' :=
    (Address.real.inj haddress).trans (Address.real.inj haddress').symm
  have hplain := hrows b old hold
  have hplain' := hrows b' old' hold'
  cases hcase : old.address with
  | real e =>
    rw [hcase] at hcolumn hplain
    have hreal := (column_eq_iff hplain.email).1 hcolumn.symm
    exact hone b b' old old' e hold hold' hcase hreal
  | parked e =>
    cases hcase' : old'.address with
    | real e' =>
      rw [hcase'] at hcolumn hplain'
      have hreal := (column_eq_iff hplain'.email).1 hcolumn
      exact hone b b' old old' e' hold hold' hreal hcase'
    | parked e' =>
      rw [hcase, hcase'] at hcolumn
      exact (parkedAs_inj hplain.bindingId hplain'.bindingId hcolumn).1

/-- The binding that another one is parked for loses only its address, to its placeholder. -/
def KeepsAllButAddress (b : String) (row row' : UserRow) : Prop :=
  row' = row ∨ ∃ email, row.address = .real email ∧
    row' = { row with address := .real (parkedAs b email) }

theorem keepsAllButAddress_parkedRow {applying : List DesiredUser} {omitted : String → Bool}
    {b : String} {row : UserRow} : KeepsAllButAddress b (row.asText b)
      ((parkedRow applying omitted b row).asText b) := by
  unfold parkedRow
  split
  · next hparks =>
    cases haddress : row.address with
    | real email =>
      refine .inr ⟨email, ?_, ?_⟩
      · simp [UserRow.asText, haddress, Address.column]
      · simp [UserRow.asText, parkRow, haddress, Address.column, Address.original]
    | parked email => simp [parks, haddress] at hparks
  · exact .inl rfl

/-- A list of newer users with distinct bindings and addresses is applied whatever it does with
the addresses: each user gets its own, no address has two holders, and the row of a binding
that the list omits keeps everything but perhaps its address. -/
theorem handover_is_exact (hone : s.OneHolder) (hrows : s.PlainRows) (husers : PlainUsers users)
    (h : Handover users s) : ∃ s', applyDesiredUsersText users s.asText = .ok s' ∧
      (∀ user ∈ users, ∃ row, s'.rows.lookup user.bindingId = some row ∧
        row.address = .real user.email) ∧
      s'.OneHolder ∧
      ∀ b, omittedBy users b = true →
        Option.Rel (KeepsAllButAddress b) (s.asText.rows.lookup b) (s'.rows.lookup b) := by
  obtain ⟨t, s₁, hok, hparked, hfree, hassigns⟩ := h.applies
  have htOne : t.OneHolder := by
    intro b b' row row' email hrow hrow' haddress haddress'
    have hkept : ∀ c row, t.rows.lookup c = some row → row.address = .real email →
        s.rows.lookup c = some row := by
      intro c row hrow haddress
      rw [hparked c] at hrow
      obtain ⟨old, hold, rfl⟩ := Option.map_eq_some_iff.1 hrow
      rcases parkedRow_cases users (omittedBy users) c old with heq | heq <;> rw [heq] at haddress ⊢
      · exact hold
      · cases haddress
    exact hone b b' row row' email (hkept b row hrow haddress) (hkept b' row' hrow' haddress')
      haddress haddress'
  have hplain : s₁.PlainRows := by
    intro b row hrow
    by_cases homitted : omittedBy users b = true
    · rw [hassigns.other b homitted, hparked b] at hrow
      obtain ⟨old, hold, rfl⟩ := Option.map_eq_some_iff.1 hrow
      have hplain := hrows b old hold
      rcases parkedRow_cases users (omittedBy users) b old with heq | heq <;> rw [heq]
      · exact hplain
      · exact hplain
    · simp only [omittedBy, Bool.not_eq_true', Bool.not_eq_false, List.any_eq_true,
        decide_eq_true_eq] at homitted
      obtain ⟨user, hmem, rfl⟩ := homitted
      obtain ⟨revision, row', -, hwrites, hrow'⟩ := hassigns.named user hmem
      obtain rfl := Option.some.inj (hrow'.symm.trans hrow)
      rw [hwrites.fields.2.2.2.2]
      exact husers user hmem
  refine ⟨s₁.asText, ?_, ?_, (hassigns.oneHolder h.distinct hfree htOne).asText hplain, ?_⟩
  · rw [applyDesiredUsersText_asText hrows husers, hok]
    rfl
  · intro user hmem
    obtain ⟨revision, row, -, hwrites, hrow⟩ := hassigns.named user hmem
    refine ⟨row.asText user.bindingId, lookup_asText_eq_some.2 ⟨row, hrow, rfl⟩, ?_⟩
    simp [UserRow.asText, hwrites.fields.2.2.2.2, Address.column]
  · intro b homitted
    rw [lookup_asText, lookup_asText, hassigns.other b homitted, hparked b]
    cases s.rows.lookup b with
    | none => exact .none
    | some row => exact .some keepsAllButAddress_parkedRow

/-! Two bindings swap their addresses. -/

/-- A row under its own address. -/
private def swapRow (email : String) : UserRow :=
  { address := .real email, uuid := "u", flow := "", enabled := true, revision := 1
    quotaRemaining := 100, offlineAllowance := 10 }

/-- A user that is listed under an address. -/
private def swapUser (bindingId email : String) : DesiredUser :=
  { bindingId, email, uuid := "u", flow := "", enabled := true, revision := some 2
    quotaRemainingBytes := some 100 }

/-- Two bindings with their addresses. -/
private def swapStore (b e b' e' : String) : Store :=
  { rows := AList.insert b (swapRow e) (AList.insert b' (swapRow e') ∅) }

/-- The two addresses, exchanged. -/
private def swapUsers (b e b' e' : String) : List DesiredUser := [swapUser b e', swapUser b' e]

private theorem swap_rows {b b' e e' c : String} {row : UserRow}
    (h : (swapStore b e b' e').rows.lookup c = some row) :
    c = b ∧ row = swapRow e ∨ c = b' ∧ row = swapRow e' := by
  rcases Table.lookup_of_insert h with ⟨hc, hrow⟩ | h
  · exact .inl ⟨hc, hrow.symm⟩
  · rcases Table.lookup_of_insert h with ⟨hc, hrow⟩ | h
    · exact .inr ⟨hc, hrow.symm⟩
    · cases h

private theorem swap_oneHolder {b b' e e' : String} (he : e ≠ e') :
    (swapStore b e b' e').OneHolder := by
  intro c c' row row' email hrow hrow' haddress haddress'
  rcases swap_rows hrow with ⟨rfl, rfl⟩ | ⟨rfl, rfl⟩ <;>
    rcases swap_rows hrow' with ⟨rfl, rfl⟩ | ⟨rfl, rfl⟩
  · rfl
  · exact absurd (Address.real.inj (haddress.trans haddress'.symm)) he
  · exact absurd (Address.real.inj (haddress'.trans haddress.symm)) he
  · rfl

private theorem swap_handover {b b' e e' : String} (hb : b ≠ b') (he : e ≠ e') :
    Handover (swapUsers b e b' e') (swapStore b e b' e') := by
  have hrow : ∀ c row, (swapStore b e b' e').rows.lookup c = some row → row.revision < 2 := by
    intro c row hrow
    rcases swap_rows hrow with ⟨-, rfl⟩ | ⟨-, rfl⟩ <;> exact Nat.one_lt_two
  constructor
  · exact ⟨by simp [swapUsers, swapUser, hb], by simp [swapUsers, swapUser, he.symm]⟩
  · intro user hmem
    rcases List.mem_pair.1 hmem with rfl | rfl <;> exact ⟨⟨100, rfl⟩, nofun⟩
  · intro user hmem
    rcases List.mem_pair.1 hmem with rfl | rfl <;> exact ⟨2, rfl, fun row => hrow _ row⟩

theorem handover_is_exact_swap : ∃ s',
    applyDesiredUsersText (swapUsers "a" "x" "b" "y") (swapStore "a" "x" "b" "y").asText = .ok s' ∧
      ∀ user ∈ swapUsers "a" "x" "b" "y", ∃ row, s'.rows.lookup user.bindingId = some row ∧
        row.address = .real user.email := by
  have hrows : (swapStore "a" "x" "b" "y").PlainRows := by
    intro b row hrow
    rcases swap_rows hrow with ⟨rfl, rfl⟩ | ⟨rfl, rfl⟩ <;> exact ⟨by decide, by decide⟩
  have husers : PlainUsers (swapUsers "a" "x" "b" "y") := by
    intro user hmem
    rcases List.mem_pair.1 hmem with rfl | rfl <;> exact ⟨by decide, by decide⟩
  obtain ⟨s', hok, hnamed, -⟩ :=
    handover_is_exact (swap_oneHolder (by decide)) hrows husers
      (swap_handover (by decide) (by decide))
  exact ⟨s', hok, hnamed⟩

/-- The placeholders of `a` at `b:c` and of `a:b` at `c` are one text. -/
theorem placeholders_collide :
    (swapStore "a" "b:c" "a:b" "c").OneHolder ∧
      Handover (swapUsers "a" "b:c" "a:b" "c") (swapStore "a" "b:c" "a:b" "c") ∧
      applyDesiredUsersText (swapUsers "a" "b:c" "a:b" "c")
        (swapStore "a" "b:c" "a:b" "c").asText =
          .error (.uniqueEmail (parkedAs "a" "b:c")) :=
  ⟨swap_oneHolder (by decide), swap_handover (by decide) (by decide), by rfl⟩

end Store

end ChordV.Agent
