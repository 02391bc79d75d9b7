import BajaValle.KeyRotation

/-!
# The reencrypt script beside requests

The script writes back what it read, while requests may write the same columns.
A run is compared with the run of its requests alone: the same schedule without
the moves of the script. The two agree as long as every column still stands for
the text that the script read when the script writes it.
-/

namespace BajaValle

open CallPrograms Prog Interleaving EncryptionService Reencrypt

inductive ProfileUpdate where
  | updateName (id : Uuid) (names : UserNames)
  | updateEmail (id : Uuid) (email : String)

def ProfileUpdate.run (env : Env) : ProfileUpdate → Task Unit
  | .updateName id names => (fun _ => ()) <$> UsersService.updateName env id names
  | .updateEmail id email => (fun _ => ()) <$> UsersService.updateEmail env id email

/-- The script is the program `none`, the requests are the others. -/
def programs (env : Env) (fuel : Nat) (requests : List ProfileUpdate) : Option Nat → Task Unit
  | none => (fun _ => ()) <$> Reencrypt.main env fuel
  | some i =>
    match requests[i]? with
    | none => return ()
    | some request => request.run env

abbrev Site := Config (Option Nat) World Choice Op Op.Res Failure Unit

def site (env : Env) (fuel : Nat) (requests : List ProfileUpdate) (w : World) : Site :=
  start w (programs env fuel requests)

variable (env : Env)

/-- The columns that `data` writes decrypt in `v` as they do in `u`. -/
def StillReads (data : UserChanges) (u v : User) : Prop :=
  (data.emailEnc ≠ none → decrypt env v.emailEnc UsersService.FIELD.email =
    decrypt env u.emailEnc UsersService.FIELD.email) ∧
  (data.firstNameEnc ≠ none → decrypt env v.firstNameEnc UsersService.FIELD.firstName =
    decrypt env u.firstNameEnc UsersService.FIELD.firstName) ∧
  (data.lastNameEnc ≠ none → decrypt env v.lastNameEnc UsersService.FIELD.lastName =
    decrypt env u.lastNameEnc UsersService.FIELD.lastName)

instance (data : UserChanges) (u v : User) : Decidable (StillReads env data u v) := by
  unfold StillReads
  infer_instance

/-- If the script updates a row now, the columns still stand for what it read. -/
def Undisturbed (i : Option Nat) (_ : Choice) (c : Site) : Prop :=
  match i, c.pool none with
  | none, .call (.userUpdate id data) _ => ∀ u ∈ seen (own none c.history),
    ∀ v ∈ c.world.users, u.id = id → v.id = id → StillReads env data u v
  | _, _ => True

instance (i : Option Nat) (ch : Choice) (c : Site) : Decidable (Undisturbed env i ch c) := by
  unfold Undisturbed
  split <;> infer_instance

/-- The blind index of the row is that of its email. -/
def EmailAgrees (u : User) : Prop :=
  ∃ email, decrypt env u.emailEnc UsersService.FIELD.email = .ok email ∧
    u.emailHash = blindIndex env email UsersService.FIELD.email

/-- Two rows that differ in encryptions and `updatedAt` at most. -/
structure SameRow (u v : User) : Prop where
  kept : { v with emailEnc := u.emailEnc, firstNameEnc := u.firstNameEnc,
                  lastNameEnc := u.lastNameEnc, updatedAt := u.updatedAt } = u
  email : decrypt env u.emailEnc UsersService.FIELD.email =
    decrypt env v.emailEnc UsersService.FIELD.email
  firstName : decrypt env u.firstNameEnc UsersService.FIELD.firstName =
    decrypt env v.firstNameEnc UsersService.FIELD.firstName
  lastName : decrypt env u.lastNameEnc UsersService.FIELD.lastName =
    decrypt env v.lastNameEnc UsersService.FIELD.lastName

/-- What a profile update may do after its own calls. -/
def UpdateMay (h : List OwnCall) : Op → Prop
  | .randomBytes n => n = IV_BYTES
  | .userUpdate _ data => (data.emailHash = none ∧ data.emailEnc = none) ∨ ∃ email iv enc,
    data.emailHash = some (blindIndex env email UsersService.FIELD.email) ∧
      data.emailEnc = some enc ∧ (⟨.randomBytes IV_BYTES, iv⟩ : OwnCall) ∈ h ∧
      encrypt env iv email UsersService.FIELD.email = .ok enc
  | _ => False

/-- Answers that a profile update does not tell apart. -/
def AlikeAnswers : (op : Op) → op.Res → op.Res → Prop
  | .userUpdate _ _, r, r' => ∀ e, r = .error e ↔ r' = .error e
  | _, r, r' => r = r'

section Updates
variable {env} {h : List OwnCall}

lemma encryptFresh_update {text context : String} :
    (encryptFresh env text context).Obeys (UpdateMay env) (fun h' enc => ∃ iv,
      (⟨.randomBytes IV_BYTES, iv⟩ : OwnCall) ∈ h' ∧ encrypt env iv text context = .ok enc) h := by
  refine perform_bind_obeys rfl fun iv => ?_
  cases encrypted : encrypt env iv text context with
  | error e => trivial
  | ok value => exact ⟨iv, List.mem_cons_self, encrypted⟩

lemma encryptName_update {name : Option String} {context : String} :
    (UsersService.encryptName env name context).Obeys (UpdateMay env) (fun _ _ => True) h := by
  unfold UsersService.encryptName
  split
  · trivial
  · split
    · trivial
    · exact obeys_bind encryptFresh_update fun _ _ _ => trivial

lemma updateName_update {id : Uuid} {names : UserNames} :
    (UsersService.updateName env id names).Obeys (UpdateMay env) (fun _ _ => True) h := by
  refine obeys_bind encryptName_update fun h₁ first _ => ?_
  refine obeys_bind encryptName_update fun h₂ last _ => ?_
  refine obeys_bind (M := fun _ _ => True) (perform_obeys (.inl ⟨rfl, rfl⟩) fun _ => trivial)
    fun h' r _ => ?_
  cases r <;> trivial

lemma updateEmail_update {id : Uuid} {email : String} :
    (UsersService.updateEmail env id email).Obeys (UpdateMay env) (fun _ _ => True) h := by
  unfold UsersService.updateEmail UsersService.encryptEmail UsersService.conflictOnDuplicate
  rw [bind_assoc]
  refine obeys_bind encryptFresh_update ?_
  rintro h' enc ⟨iv, drawn, encrypted⟩
  simp only [pure_eq, ret_bind]
  refine obeys_bind (M := fun _ _ => True)
    (perform_obeys (.inr ⟨_, iv, enc, rfl, rfl, drawn, encrypted⟩)
    fun _ => trivial) fun h' r _ => ?_
  rcases r with e | u
  · cases e <;> trivial
  · trivial

lemma ofExcept_ignores {α : Type} (value : Except Failure α) :
    (Prog.ofExcept value : Task α).Ignores AlikeAnswers := by
  cases value <;> trivial

lemma encryptFresh_ignores {text context : String} :
    (encryptFresh env text context).Ignores AlikeAnswers := by
  refine ⟨?_, fun iv => ofExcept_ignores _⟩
  rintro iv _ rfl
  rfl

lemma encryptName_ignores {name : Option String} {context : String} :
    (UsersService.encryptName env name context).Ignores AlikeAnswers := by
  unfold UsersService.encryptName
  split
  · trivial
  · split
    · trivial
    · exact ignores_bind encryptFresh_ignores fun _ => trivial

/-- An update whose row is thrown away. -/
lemma update_ignores {id : Uuid} {data : UserChanges} {f : Except PrismaError User → Task Unit}
    (rows : ∀ u v, f (.ok u) = f (.ok v)) (ends : ∀ r, (f r).Ignores AlikeAnswers) :
    (perform (.userUpdate id data) >>= f).Ignores AlikeAnswers := by
  refine ⟨fun r r' alike => ?_, ends⟩
  cases r with
  | error e => rw [(alike e).mp rfl]
  | ok u => cases r' with
    | error e => cases (alike e).mpr rfl
    | ok v => exact rows u v

lemma ProfileUpdate.run_ignores (request : ProfileUpdate) :
    (request.run env).Ignores AlikeAnswers := by
  cases request with
  | updateName id names =>
    simp only [ProfileUpdate.run, UsersService.updateName, map_bind]
    refine ignores_bind encryptName_ignores fun first => ?_
    refine ignores_bind encryptName_ignores fun last => ?_
    exact update_ignores (fun _ _ => rfl) fun r => by cases r <;> trivial
  | updateEmail id email =>
    simp only [ProfileUpdate.run, UsersService.updateEmail, UsersService.encryptEmail, map_bind,
      bind_assoc]
    refine ignores_bind encryptFresh_ignores fun enc => ?_
    refine update_ignores (fun _ _ => rfl) fun r => ?_
    rcases r with e | u
    · cases e <;> trivial
    · trivial

end Updates

/-- The rules of the programs of a site. -/
def siteMay : Option Nat → List OwnCall → Op → Prop
  | none => ScriptMay env
  | some _ => UpdateMay env

/-- A run with the script on the left and the run without it on the right. -/
structure Related (c d : Site) : Prop where
  pool : ∀ i, d.pool (some i) = c.pool (some i)
  ignores : ∀ i, (c.pool (some i)).Ignores AlikeAnswers
  clock : d.world.clock ≤ c.world.clock
  users : c.world.users.Forall₂ (fun u v => SameRow env u v ∧ EmailAgrees env u) d.world.users

section Steps
variable {env} {fuel : Nat} {requests : List ProfileUpdate} {w : World} {u v : User}
  {data : UserChanges} {now : Nat}

lemma site_obeys : PoolObeys (siteMay env) (fun _ _ _ => True) (site env fuel requests w) := by
  intro i
  cases i with
  | none => exact obeys_bind (main_obeys fuel) fun _ _ _ => trivial
  | some i =>
    simp only [site, start, programs]
    split
    · trivial
    · rename_i request _
      cases request with
      | updateName id names => exact obeys_bind updateName_update fun _ _ _ => trivial
      | updateEmail id email => exact obeys_bind updateEmail_update fun _ _ _ => trivial

lemma forall₂_of_mem {α β : Type} {R S : α → β → Prop} {xs : List α} {ys : List β}
    (h : xs.Forall₂ R ys) (implied : ∀ a ∈ xs, ∀ b, R a b → S a b) : xs.Forall₂ S ys := by
  induction h with
  | nil => exact .nil
  | cons here _ ih =>
    exact .cons (implied _ List.mem_cons_self _ here)
      (ih fun a ha => implied a (List.mem_cons_of_mem _ ha))

lemma forall₂_exists {α β : Type} {R : α → β → Prop} {xs : List α} {ys : List β}
    (h : xs.Forall₂ R ys) {a : α} (ha : a ∈ xs) : ∃ b ∈ ys, R a b := by
  induction h with
  | nil => cases ha
  | cons here _ ih =>
    rcases List.mem_cons.mp ha with rfl | ha
    · exact ⟨_, List.mem_cons_self, here⟩
    · obtain ⟨b, hb, rel⟩ := ih ha
      exact ⟨b, List.mem_cons_of_mem _ hb, rel⟩

lemma SameRow.id (same : SameRow env u v) : v.id = u.id := by
  have h := congrArg User.id same.kept
  exact h

lemma SameRow.emailHash (same : SameRow env u v) : v.emailHash = u.emailHash := by
  have h := congrArg User.emailHash same.kept
  exact h

lemma SameRow.toProfile (same : SameRow env u v) :
    UsersService.toProfile env u = UsersService.toProfile env v := by
  simp only [UsersService.toProfile, same.email, same.firstName, same.lastName]
  rw [← same.kept]

/-- The same update of both rows. -/
lemma SameRow.apply (same : SameRow env u v) :
    SameRow env (data.apply now u) (data.apply now v) := by
  obtain ⟨kept, email, firstName, lastName⟩ := same
  refine ⟨?_, ?_, ?_, ?_⟩
  · rw [← kept]
    rfl
  · cases h : data.emailEnc <;> simp [h, email]
  · cases h : data.firstNameEnc <;> simp [h, firstName]
  · cases h : data.lastNameEnc <;> simp [h, lastName]

/-- A column that the script writes still stands for what it stood for. -/
lemma recrypted_decrypt {h : List OwnCall} {context old now : String} {new : Option String}
    (safe : SafeKeys env) (drawn : ∀ iv, (⟨.randomBytes IV_BYTES, iv⟩ : OwnCall) ∈ h →
      iv.length = IV_BYTES) (recrypted : Recrypted env h context old new)
    (still : new ≠ none → decrypt env now context = decrypt env old context) :
    decrypt env (new.getD now) context = decrypt env now context := by
  cases new with
  | none => rfl
  | some value =>
    obtain ⟨text, iv, decrypted, call, encrypted⟩ := recrypted
    obtain ⟨_, _, fixed⟩ := sealed_encrypt safe (drawn iv call) encrypted
    rw [still (Option.some_ne_none _), decrypted]
    exact fixed.decrypt

/-- The script's update of the left row. -/
lemma SameRow.rewritten {h : List OwnCall} {read : User} (same : SameRow env u v)
    (agrees : EmailAgrees env u) (safe : SafeKeys env)
    (drawn : ∀ iv, (⟨.randomBytes IV_BYTES, iv⟩ : OwnCall) ∈ h → iv.length = IV_BYTES)
    (rewrites : Rewrites env h read data) (still : StillReads env data read u) :
    SameRow env (data.apply now u) v ∧ EmailAgrees env (data.apply now u) := by
  obtain ⟨email, firstName, lastName, rfl, hemail, hfirst, hlast⟩ := rewrites
  have emails := recrypted_decrypt safe drawn hemail still.1
  have firsts := recrypted_decrypt safe drawn hfirst still.2.1
  have lasts := recrypted_decrypt safe drawn hlast still.2.2
  refine ⟨⟨?_, emails.trans same.email, firsts.trans same.firstName, lasts.trans same.lastName⟩, ?_⟩
  · rw [← same.kept]
    rfl
  · obtain ⟨text, decrypted, hash⟩ := agrees
    exact ⟨text, emails.trans decrypted, hash⟩

/-- A profile update of a row keeps its blind index right. -/
lemma EmailAgrees.apply {h : List OwnCall} (agrees : EmailAgrees env u) (id : Uuid)
    (safe : SafeKeys env)
    (drawn : ∀ iv, (⟨.randomBytes IV_BYTES, iv⟩ : OwnCall) ∈ h → iv.length = IV_BYTES)
    (may : UpdateMay env h (.userUpdate id data)) : EmailAgrees env (data.apply now u) := by
  rcases may with ⟨noHash, noEmail⟩ | ⟨email, iv, enc, hash, written, call, encrypted⟩
  · obtain ⟨text, decrypted, index⟩ := agrees
    exact ⟨text, by simpa [noEmail] using decrypted, by simpa [noHash] using index⟩
  · obtain ⟨_, _, fixed⟩ := sealed_encrypt safe (drawn iv call) encrypted
    exact ⟨email, by simpa [written] using fixed.decrypt, by simp [hash]⟩

lemma sameRows_keys {us vs : List User}
    (rows : us.Forall₂ (fun u v => SameRow env u v ∧ EmailAgrees env u) vs) :
    us.map (fun u => (u.id, u.emailHash)) = vs.map fun u => (u.id, u.emailHash) := by
  induction rows with
  | nil => rfl
  | cons here _ ih => rw [List.map_cons, List.map_cons, ih, here.1.id, here.1.emailHash]

/-- The same update of two tables of the same rows. -/
lemma updates_alike {ch : Choice} {id : Uuid} {x x' y y' : World} {r r' : Except PrismaError User}
    (rows : x.users.Forall₂ (fun u v => SameRow env u v ∧ EmailAgrees env u) y.users)
    (left : UpdateStep ch id data x x' r) (right : UpdateStep ch id data y y' r') :
    (∀ e, r = .error e ↔ r' = .error e) ∧
      ((x'.users = x.users ∧ y'.users = y.users) ∨
        x'.users = x.users.map (fun v => if v.id = id then data.apply ch.now v else v) ∧
        y'.users = y.users.map (fun v => if v.id = id then data.apply ch.now v else v)) := by
  have keys := sameRows_keys rows
  have ids : x.users.find? (·.id = id) = none ↔ y.users.find? (·.id = id) = none := by
    have through : ∀ users : List User, users.find? (·.id = id) = none ↔
        ∀ k ∈ users.map (fun u => (u.id, u.emailHash)), k.1 ≠ id := by
      intro users
      simp
    rw [through, through, keys]
  have taken : ∀ e, x.emailTaken id e = y.emailTaken id e := by
    intro e
    have through : ∀ w : World, w.emailTaken id e =
        (w.users.map fun u => (u.id, u.emailHash)).any fun k => k.1 ≠ id && k.2 = e := by
      intro w
      simp [World.emailTaken, List.any_map, Function.comp_def]
    rw [through, through, keys]
  cases left with
  | failed fails same => cases right with
    | failed _ same' => exact ⟨fun _ => Iff.rfl, .inl ⟨same, same'⟩⟩
    | missing works => simp [fails] at works
    | taken works => simp [fails] at works
    | updated works => simp [fails] at works
  | missing works absent same => cases right with
    | failed fails => simp [works] at fails
    | missing _ _ same' => exact ⟨fun _ => Iff.rfl, .inl ⟨same, same'⟩⟩
    | taken _ u found => simp [ids.mp absent] at found
    | updated _ u found => simp [ids.mp absent] at found
  | taken works u found e changes held same => cases right with
    | failed fails => simp [works] at fails
    | missing _ absent => simp [ids.mpr absent] at found
    | taken _ _ _ _ _ _ same' => exact ⟨fun _ => Iff.rfl, .inl ⟨same, same'⟩⟩
    | updated _ _ _ free =>
      rw [taken, free e changes] at held
      cases held
  | updated works u found free same => cases right with
    | failed fails => simp [works] at fails
    | missing _ absent => simp [ids.mpr absent] at found
    | taken _ _ _ e changes held =>
      rw [← taken, free e changes] at held
      cases held
    | updated _ _ _ _ same' => exact ⟨by simp, .inr ⟨same, same'⟩⟩

/-- Draws of a site are as long as asked for. -/
lemma site_drawn {c : Site} (reached : Leads (exec env) (site env fuel requests w) c)
    (i : Option Nat) (iv : Bytes)
    (call : (⟨.randomBytes IV_BYTES, iv⟩ : OwnCall) ∈ own i c.history) : iv.length = IV_BYTES :=
  randomBytes_length reached call

/-- A move of the script in an undisturbed state keeps the relation. -/
lemma Related.script {c c' d : Site} {ch : Choice} (safe : SafeKeys env)
    (reached : Leads (exec env) (site env fuel requests w) c) (related : Related env c d)
    (undisturbed : Undisturbed env none ch c) (fired : fire (exec env) none ch c = some c') :
    Related env c' d := by
  have may := leads_poolObeys reached site_obeys none
  obtain ⟨op, next, r, w', head, answered, rfl⟩ := fire_eq_some.mp fired
  rw [head] at may
  have spends := exec_spends answered
  have users : w'.users.Forall₂ (fun u v => SameRow env u v ∧ EmailAgrees env u) d.world.users := by
    cases op with
    | userUpdate id data =>
      obtain ⟨read, hread, rfl, rewrites⟩ := may.1
      simp only [Undisturbed, head] at undisturbed
      cases exec_userUpdate answered with
      | failed _ same => exact same ▸ related.users
      | missing _ _ same => exact same ▸ related.users
      | taken _ _ _ _ _ _ same => exact same ▸ related.users
      | updated _ _ _ _ rows =>
        rw [rows, List.forall₂_map_left_iff]
        refine forall₂_of_mem related.users fun u hu v hv => ?_
        split
        · rename_i here
          exact hv.1.rewritten hv.2 safe (site_drawn reached none) rewrites
            (undisturbed read hread u hu rfl here)
        · exact hv
    | randomBytes | userFindMany => exact (exec_readOnly answered trivial).2 ▸ related.users
    | _ => exact may.1.elim
  refine ⟨fun i => ?_, fun i => ?_, ?_, users⟩
  · simpa using related.pool i
  · simpa using related.ignores i
  · rw [spends.clock]
    exact Nat.le_trans related.clock spends.later

/-- A move of a request can be made on both sides. -/
lemma Related.request {c c' d : Site} {i : Nat} {ch : Choice} (safe : SafeKeys env)
    (reached : Leads (exec env) (site env fuel requests w) c) (related : Related env c d)
    (fired : fire (exec env) (some i) ch c = some c') :
    ∃ d', fire (exec env) (some i) ch d = some d' ∧ Related env c' d' := by
  have may := leads_poolObeys reached site_obeys (some i)
  obtain ⟨op, next, r, w', head, answered, rfl⟩ := fire_eq_some.mp fired
  rw [head] at may
  have ignores := related.ignores i
  rw [head] at ignores
  have headAlone : d.pool (some i) = .call op next := (related.pool i).trans head
  have both : ∃ r' v', exec env ch op d.world = some (r', v') ∧ AlikeAnswers op r r' ∧
      w'.users.Forall₂ (fun u v => SameRow env u v ∧ EmailAgrees env u) v'.users := by
    cases op with
    | randomBytes n =>
      obtain rfl : n = IV_BYTES := may.1
      obtain ⟨v', alone⟩ := randomBytes_able answered (by decide) related.clock
      refine ⟨r, v', alone, rfl, ?_⟩
      rw [(exec_readOnly answered trivial).2, (exec_readOnly alone trivial).2]
      exact related.users
    | userUpdate id data =>
      have able : ∃ r' v', exec env ch (.userUpdate id data) d.world = some (r', v') :=
        userUpdate_able (Nat.le_trans related.clock (exec_spends answered).later)
      obtain ⟨r', v', alone⟩ := able
      obtain ⟨alike, same | ⟨left, right⟩⟩ := updates_alike related.users (exec_userUpdate answered)
        (exec_userUpdate alone)
      · exact ⟨r', v', alone, alike, by rw [same.1, same.2]; exact related.users⟩
      · refine ⟨r', v', alone, alike, ?_⟩
        rw [left, right, List.forall₂_map_left_iff, List.forall₂_map_right_iff]
        refine related.users.imp fun u v hv => ?_
        rw [hv.1.id]
        split
        · exact ⟨hv.1.apply, hv.2.apply id safe (site_drawn reached (some i)) may.1⟩
        · exact hv
    | _ => exact may.1.elim
  obtain ⟨r', v', alone, alike, users⟩ := both
  have continued : next r' = next r := (ignores.1 r r' alike).symm
  refine ⟨_, fire_eq_some.mpr ⟨op, next, r', v', headAlone, alone, rfl⟩, fun j => ?_,
    fun j => ?_, ?_,
    users⟩
  · by_cases here : j = i
    · subst here
      simpa using continued
    · simpa [here] using related.pool j
  · by_cases here : j = i
    · subst here
      simpa using ignores.2 r
    · simpa [here] using related.ignores j
  · rw [(exec_spends answered).clock, (exec_spends alone).clock]

end Steps

namespace Plain

lemma email_agrees : ∀ u ∈ world.users, EmailAgrees rotatedEnv u := by
  intro u hu
  obtain rfl := List.mem_singleton.mp hu
  exact ⟨"ana@valle.mx", by decide +kernel, rfl⟩

def iv (i : Option Nat) (now : Nat) : Option Nat × Choice :=
  (i, { now, bytes := List.replicate IV_BYTES 0 })

/-- The script reads its page and draws for all fields, the request updates the
email, and then the script updates the row and ends. -/
def lateUpdate : List (Option Nat × Choice) :=
  [(none, { now := 1 }), iv none 2, iv none 3, iv none 4, iv (some 0) 5, (some 0, { now := 6 }),
    (none, { now := 7 }), (none, { now := 8 })]

end Plain

/-- The email is changed between the read of the row and its update. -/
theorem reencryption_visible :
    (∀ u ∈ Plain.world.users, EmailAgrees Plain.rotatedEnv u) ∧
    ∃ schedule c alone, play (exec Plain.rotatedEnv) schedule
        (site Plain.rotatedEnv 2 [.updateEmail 1 "eva@valle.mx"] Plain.world) = some c ∧
      (∀ i, (c.pool i).outcome ≠ none) ∧
      play (exec Plain.rotatedEnv) (schedule.filter (·.1 ≠ none))
        (site Plain.rotatedEnv 2 [.updateEmail 1 "eva@valle.mx"] Plain.world) = some alone ∧
      (∃ u ∈ c.world.users, ∃ v ∈ alone.world.users, u.id = v.id ∧
        UsersService.toProfile Plain.rotatedEnv u ≠ UsersService.toProfile Plain.rotatedEnv v) ∧
      ∃ u ∈ c.world.users, ¬ EmailAgrees Plain.rotatedEnv u := by
  refine ⟨Plain.email_agrees, ?_⟩
  have shown : (play (exec Plain.rotatedEnv) Plain.lateUpdate
      (site Plain.rotatedEnv 2 [.updateEmail 1 "eva@valle.mx"] Plain.world)).any (fun c =>
    (play (exec Plain.rotatedEnv) (Plain.lateUpdate.filter (·.1 ≠ none))
      (site Plain.rotatedEnv 2 [.updateEmail 1 "eva@valle.mx"] Plain.world)).any fun alone =>
        decide (
      (c.pool none).outcome ≠ none ∧ (c.pool (some 0)).outcome ≠ none ∧
      (∃ u ∈ c.world.users, ∃ v ∈ alone.world.users, u.id = v.id ∧
        UsersService.toProfile Plain.rotatedEnv u ≠ UsersService.toProfile Plain.rotatedEnv v) ∧
      ∃ u ∈ c.world.users,
        decrypt Plain.rotatedEnv u.emailEnc UsersService.FIELD.email = .ok "ana@valle.mx" ∧
        u.emailHash ≠ blindIndex Plain.rotatedEnv "ana@valle.mx" UsersService.FIELD.email)) =
          true := by
    decide +kernel
  obtain ⟨c, played, shown⟩ := (Option.any_eq_true _ _).mp shown
  obtain ⟨alone, playedAlone, shown⟩ := (Option.any_eq_true _ _).mp shown
  obtain ⟨script, request, profiles, u, hu, decrypted, hash⟩ := of_decide_eq_true shown
  refine ⟨_, c, alone, played, ?_, playedAlone, profiles, u, hu, ?_⟩
  · rintro (_ | _ | i)
    · exact script
    · exact request
    · have idle := leads_of_finished (i := some (i + 1)) ⟨_, played⟩ (Option.some_ne_none _)
      rw [idle.1]
      exact Option.some_ne_none _
  · rintro ⟨email, decrypted', agrees⟩
    obtain rfl := Except.ok.inj (decrypted.symm.trans decrypted')
    exact hash agrees

/-- A run whose script finds every column that it rewrites as it read it agrees
with the run of its requests alone, and every blind index is that of its email. -/
theorem reencryption_invisible_if_undisturbed (env : Env) (fuel : Nat)
    (requests : List ProfileUpdate) (w : World) (safe : SafeKeys env)
    (agree : ∀ u ∈ w.users, EmailAgrees env u) (schedule : List (Option Nat × Choice)) (c : Site)
    (undisturbed : Along (exec env) (Undisturbed env) schedule (site env fuel requests w))
    (run : play (exec env) schedule (site env fuel requests w) = some c) :
    ∃ alone, play (exec env) (schedule.filter (·.1 ≠ none))
        (site env fuel requests w) = some alone ∧
      (∀ i, alone.pool (some i) = c.pool (some i)) ∧
      c.world.users.Forall₂ (fun u v => u.id = v.id ∧
        UsersService.toProfile env u = UsersService.toProfile env v) alone.world.users ∧
      ∀ u ∈ c.world.users, EmailAgrees env u := by
  have first : Related env (site env fuel requests w) (site env fuel requests w) := by
    refine ⟨fun _ => rfl, fun i => ?_, Nat.le_refl _, List.forall₂_same.mpr fun u hu =>
      ⟨⟨rfl, rfl, rfl, rfl⟩, agree u hu⟩⟩
    simp only [site, start, programs]
    split
    · trivial
    · exact ProfileUpdate.run_ignores _
  obtain ⟨alone, played, related⟩ := play_without none
    (fun _ _ _ _ reached related here fired => related.script safe reached here fired)
    (fun c c' d i ch reached related other fired => by
      obtain ⟨j, rfl⟩ := Option.ne_none_iff_exists'.mp other
      exact related.request safe reached fired)
    (leads_refl _) first undisturbed run
  refine ⟨alone, played, related.pool, related.users.imp fun u v same =>
    ⟨same.1.id.symm, same.1.toProfile⟩, ?_⟩
  intro u hu
  obtain ⟨v, _, same⟩ := forall₂_exists related.users hu
  exact same.2

namespace Plain

lemma mixed_agrees : ∀ u ∈ mixedWorld.users, EmailAgrees threeKeys u := by
  intro u hu
  simp only [mixedWorld, List.mem_cons, List.not_mem_nil, or_false] at hu
  rcases hu with rfl | rfl | rfl
  · exact ⟨"eva@valle.mx", by decide +kernel, rfl⟩
  · exact ⟨"ana@valle.mx", by decide +kernel, rfl⟩
  · exact ⟨"luz@valle.mx", by decide +kernel, rfl⟩

lemma safeKeys_threeKeys : SafeKeys threeKeys := by
  intro e he
  simp only [threeKeys, Env.withKeys_ENCRYPTION_KEYS, List.mem_cons, List.not_mem_nil, or_false]
    at he
  rcases he with rfl | rfl | rfl
  · exact ⟨1, rfl, by decide, by decide⟩
  · exact ⟨2, rfl, by decide, by decide⟩
  · exact ⟨3, rfl, by decide, by decide⟩

def meanwhile : List ProfileUpdate :=
  [.updateEmail 1 "sol@valle.mx", .updateName 9 ⟨some "Lucia", none⟩]

/-- The email of the first row is changed once the script has rotated it, and the name of
the last while the script draws for the row between. -/
def between : List (Option Nat × Choice) :=
  [(none, { now := 1 }), iv none 2, iv none 3, iv none 4, (none, { now := 5 }),
    iv (some 0) 6, (some 0, { now := 7 }), iv none 8, iv none 9, iv (some 1) 10,
    (some 1, { now := 11 }), iv none 12, (none, { now := 13 }), (none, { now := 14 })]

end Plain

theorem reencryption_invisible_if_undisturbed_between :
    ∃ c alone, play (exec Plain.threeKeys) Plain.between
        (site Plain.threeKeys 2 Plain.meanwhile Plain.mixedWorld) = some c ∧
      play (exec Plain.threeKeys) (Plain.between.filter (·.1 ≠ none))
        (site Plain.threeKeys 2 Plain.meanwhile Plain.mixedWorld) = some alone ∧
      (c.pool none).outcome ≠ none ∧ (c.pool (some 0)).outcome ≠ none ∧
      (c.pool (some 1)).outcome ≠ none ∧
      c.world.users.Forall₂ (fun u v => u.id = v.id ∧ UsersService.toProfile Plain.threeKeys u =
        UsersService.toProfile Plain.threeKeys v) alone.world.users ∧
      ∀ u ∈ c.world.users, EmailAgrees Plain.threeKeys u := by
  have shown : (play (exec Plain.threeKeys) Plain.between
      (site Plain.threeKeys 2 Plain.meanwhile Plain.mixedWorld)).any (fun c => decide (
        (c.pool none).outcome ≠ none ∧ (c.pool (some 0)).outcome ≠ none ∧
        (c.pool (some 1)).outcome ≠ none)) = true := by
    decide +kernel
  obtain ⟨c, played, shown⟩ := (Option.any_eq_true _ _).mp shown
  obtain ⟨script, email, name⟩ := of_decide_eq_true shown
  obtain ⟨alone, playedAlone, _, profiles, agree⟩ :=
    reencryption_invisible_if_undisturbed Plain.threeKeys 2 Plain.meanwhile Plain.mixedWorld
      Plain.safeKeys_threeKeys Plain.mixed_agrees Plain.between c (by decide +kernel) played
  exact ⟨c, alone, played, playedAlone, script, email, name, profiles, agree⟩

end BajaValle
