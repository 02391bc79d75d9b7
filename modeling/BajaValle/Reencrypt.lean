import BajaValle.Enciphered
import BajaValle.Rules

/-!
# The reencrypt script

Pages of users in id order, each from after the last id of the page before.
A row with a field of an older version is updated with new encryptions of just
those fields. `fuel` bounds the pages read; the script itself has no bound.
-/

namespace BajaValle

open CallPrograms Prog EncryptionService

namespace Reencrypt

def BATCH : Nat := 100

inductive UserField where
  | emailEnc
  | firstNameEnc
  | lastNameEnc

/-- The fields in the order of the table in the source, with their contexts. -/
def USER_FIELDS : List (UserField × String) :=
  [(.emailEnc, "users.email"), (.firstNameEnc, "users.firstName"),
    (.lastNameEnc, "users.lastName")]

/-- `user[field]` -/
def UserField.of (user : User) : UserField → String
  | .emailEnc => user.emailEnc
  | .firstNameEnc => user.firstNameEnc
  | .lastNameEnc => user.lastNameEnc

/-- `data[field] = value` -/
def UserField.set (data : UserChanges) (value : String) : UserField → UserChanges
  | .emailEnc => { data with emailEnc := some value }
  | .firstNameEnc => { data with firstNameEnc := some value }
  | .lastNameEnc => { data with lastNameEnc := some value }

variable (env : Env)

def reencryptField (user : User) (data : UserChanges) (field : UserField) (context : String) :
    Task UserChanges := do
  if ← Prog.ofExcept (needsReencryption env (field.of user)) then
    let value ← reencrypt env (field.of user) context
    return field.set data value
  else return data

def reencryptRow (user : User) : Task UserChanges :=
  USER_FIELDS.foldlM (fun data entry => reencryptField env user data entry.1 entry.2) {}

/-- One row of a page, with the count of updated rows so far. -/
def visit (updated : Nat) (user : User) : Task Nat := do
  let data ← reencryptRow env user
  if data = {} then return updated
  else do
    let _ ← await (perform (.userUpdate user.id data))
    return updated + 1

def loop : Nat → Option Uuid → Nat → Task Nat
  | 0, _, _ => Prog.throw .outOfFuel
  | fuel + 1, cursor, updated => do
    let users ← await (perform (.userFindMany cursor BATCH))
    match users.getLast? with
    | none => return updated
    | some last => do
      let updated ← users.foldlM (visit env) updated
      loop fuel (some last.id) updated

def main (fuel : Nat) : Task Nat := loop env fuel none 0

def pageRows : OwnCall → List User
  | ⟨.userFindMany _ _, .ok page⟩ => page
  | _ => []

/-- The rows of all pages read so far, in order. -/
def seen (h : List OwnCall) : List User := h.reverse.flatMap pageRows

/-- A new value of a column encrypts what its old value decrypts to. -/
def Recrypted (h : List OwnCall) (context old : String) : Option String → Prop
  | none => True
  | some value => ∃ text iv, decrypt env old context = .ok text ∧
    (⟨.randomBytes IV_BYTES, iv⟩ : OwnCall) ∈ h ∧ encrypt env iv text context = .ok value

/-- The update of a row that has been read. -/
def Rewrites (h : List OwnCall) (u : User) (data : UserChanges) : Prop :=
  ∃ email firstName lastName,
    data = { emailEnc := email, firstNameEnc := firstName, lastNameEnc := lastName } ∧
    Recrypted env h UsersService.FIELD.email u.emailEnc email ∧
    Recrypted env h UsersService.FIELD.firstName u.firstNameEnc firstName ∧
    Recrypted env h UsersService.FIELD.lastName u.lastNameEnc lastName

/-- The update writes the columns of older versions and no others. -/
def WritesOlder (u : User) (data : UserChanges) : Prop :=
  (data.emailEnc = none ↔ versionOf u.emailEnc = currentVersion env) ∧
    (data.firstNameEnc = none ↔ versionOf u.firstNameEnc = currentVersion env) ∧
    (data.lastNameEnc = none ↔ versionOf u.lastNameEnc = currentVersion env)

/-- A row that has been read needs no update or has had it. -/
def Settled (h : List OwnCall) (u : User) : Prop :=
  ¬ HasOlderField env u ∨ ∃ data r, (⟨.userUpdate u.id data, .ok r⟩ : OwnCall) ∈ h

/-- The id of the last row read. -/
def lastSeen (h : List OwnCall) : Option Uuid := (seen h).getLast?.map User.id

/-- The script has read an empty page. -/
def Exhausted (h : List OwnCall) : Prop :=
  ∃ cursor, (⟨.userFindMany cursor BATCH, .ok []⟩ : OwnCall) ∈ h

def SweepMay (h : List OwnCall) : Op → Prop
  | .randomBytes n => n = IV_BYTES
  | .userFindMany cursor take =>
    cursor = lastSeen h ∧ take = BATCH ∧ ¬ Exhausted h ∧ ∀ u ∈ seen h, Settled env h u
  | .userUpdate id data => ∃ u ∈ seen h, id = u.id ∧ data ≠ {} ∧ Rewrites env h u data ∧
    WritesOlder env u data
  | _ => False

def ScriptMay (h : List OwnCall) : Op → Prop
  | .randomBytes n => n = IV_BYTES
  | .userFindMany _ _ => True
  | .userUpdate id data => ∃ u ∈ seen h, id = u.id ∧ Rewrites env h u data
  | _ => False

/-- The kinds of calls that the script makes. -/
def ScriptCall : Op → Prop
  | .randomBytes n => n = IV_BYTES
  | .userFindMany _ _ | .userUpdate _ _ => True
  | _ => False

section Rules
variable {env} {h h' h'' : List OwnCall}

lemma SweepMay.may {op : Op} (sweeps : SweepMay env h op) : ScriptMay env h op := by
  cases op with
  | userUpdate id data =>
    obtain ⟨u, hu, same, _, rewrites, _⟩ := sweeps
    exact ⟨u, hu, same, rewrites⟩
  | _ => first | exact sweeps | trivial

lemma ScriptMay.call {op : Op} (may : ScriptMay env h op) : ScriptCall op := by
  cases op <;> first | exact may | trivial

@[simp] lemma seen_cons (k : OwnCall) (h : List OwnCall) :
    seen (k :: h) = seen h ++ pageRows k := by
  simp [seen]

lemma seen_page (cursor : Option Uuid) (take : Nat) (page : List User) (h : List OwnCall) :
    seen (⟨.userFindMany cursor take, .ok page⟩ :: h) = seen h ++ page := seen_cons _ _

lemma lastSeen_page {cursor : Option Uuid} {take : Nat} {page : List User} (h : List OwnCall) :
    lastSeen (⟨.userFindMany cursor take, .ok page⟩ :: h) =
      (page.getLast?.map User.id).or (lastSeen h) := by
  rw [lastSeen, seen_page, List.getLast?_append]
  cases page.getLast? <;> rfl

lemma Recrypted.subset {context old : String} {new : Option String}
    (recrypted : Recrypted env h context old new) (sub : h ⊆ h') :
    Recrypted env h' context old new := by
  cases new with
  | none => trivial
  | some value =>
    obtain ⟨text, iv, decrypted, drawn, encrypted⟩ := recrypted
    exact ⟨text, iv, decrypted, sub drawn, encrypted⟩

lemma Settled.subset {u : User} (settled : Settled env h u) (sub : h ⊆ h') : Settled env h' u :=
  settled.imp_right fun ⟨data, r, updated⟩ => ⟨data, r, sub updated⟩

/-- Calls between two pages. -/
structure Within (h h' : List OwnCall) : Prop where
  calls : h ⊆ h'
  page : seen h' = seen h
  going : ¬ Exhausted h → ¬ Exhausted h'

lemma Within.refl (h : List OwnCall) : Within h h := ⟨List.Subset.refl _, rfl, fun going => going⟩

lemma Within.trans (first : Within h h') (second : Within h' h'') : Within h h'' :=
  ⟨List.Subset.trans first.calls second.calls, second.page.trans first.page,
    fun going => second.going (first.going going)⟩

lemma Within.cons {k : OwnCall} (within : Within h h') (reads : pageRows k = [])
    (other : ∀ cursor, k.op ≠ .userFindMany cursor BATCH) : Within h (k :: h') where
  calls := List.subset_cons_of_subset _ within.calls
  page := by rw [seen_cons, reads, List.append_nil, within.page]
  going := by
    rintro going ⟨cursor, mem⟩
    rcases List.mem_cons.mp mem with same | old
    · exact other cursor (congrArg Call.op same).symm
    · exact within.going going ⟨cursor, old⟩

lemma encryptFresh_obeys {text context : String} :
    (encryptFresh env text context).Obeys (SweepMay env) (fun h' value => Within h h' ∧ ∃ iv,
      (⟨.randomBytes IV_BYTES, iv⟩ : OwnCall) ∈ h' ∧
        encrypt env iv text context = .ok value) h := by
  refine perform_bind_obeys rfl fun iv => ?_
  cases encrypted : encrypt env iv text context with
  | error e => trivial
  | ok value => exact ⟨(Within.refl h).cons rfl nofun, iv, List.mem_cons_self, encrypted⟩

lemma needsReencryption_version {value : String} {needs : Bool}
    (parsed : needsReencryption env value = .ok needs) :
    needs = false ↔ versionOf value = currentVersion env := by
  unfold needsReencryption at parsed
  unfold versionOf
  split at parsed
  · cases parsed
  · rename_i version rest found
    obtain rfl := Except.ok.inj parsed
    simp [found]

lemma reencryptField_obeys {user : User} {data : UserChanges} {field : UserField}
    {context : String} :
    (reencryptField env user data field context).Obeys (SweepMay env) (fun h' data' => Within h h' ∧
      ∃ new, Recrypted env h' context (field.of user) new ∧
        (new = none ↔ versionOf (field.of user) = currentVersion env) ∧
        data' = new.elim data fun value => field.set data value) h := by
  unfold reencryptField
  cases parsed : needsReencryption env (field.of user) with
  | error e => trivial
  | ok needs =>
    have version := needsReencryption_version parsed
    cases needs with
    | false => exact ⟨.refl h, none, trivial, iff_of_true rfl (version.mp rfl), rfl⟩
    | true =>
      simp only [ofExcept_ok, ret_bind, if_true, reencrypt, bind_assoc]
      cases decrypted : decrypt env (field.of user) context with
      | error e => trivial
      | ok text =>
        simp only [ofExcept_ok, ret_bind]
        refine obeys_bind encryptFresh_obeys ?_
        rintro h' value ⟨within, iv, drawn, encrypted⟩
        refine ⟨within, some value, ⟨text, iv, decrypted, drawn, encrypted⟩, ?_, rfl⟩
        simpa using version

lemma reencryptRow_obeys {user : User} :
    (reencryptRow env user).Obeys (SweepMay env) (fun h' data => Within h h' ∧
      Rewrites env h' user data ∧ WritesOlder env user data) h := by
  unfold reencryptRow USER_FIELDS
  simp only [List.foldlM_cons, List.foldlM_nil, bind_pure]
  refine obeys_bind reencryptField_obeys ?_
  rintro h₁ _ ⟨within₁, new₁, recrypted₁, older₁, rfl⟩
  refine obeys_bind reencryptField_obeys ?_
  rintro h₂ _ ⟨within₂, new₂, recrypted₂, older₂, rfl⟩
  refine reencryptField_obeys.mono (fun _ _ may => may) ?_
  rintro h₃ _ ⟨within₃, new₃, recrypted₃, older₃, rfl⟩
  refine ⟨within₁.trans (within₂.trans within₃), ?_, ?_⟩
  · refine ⟨new₁, new₂, new₃, ?_, recrypted₁.subset (within₂.trans within₃).calls,
      recrypted₂.subset within₃.calls, recrypted₃⟩
    cases new₁ <;> cases new₂ <;> cases new₃ <;> rfl
  · refine ⟨Iff.trans ?_ older₁, Iff.trans ?_ older₂, Iff.trans ?_ older₃⟩ <;>
      cases new₁ <;> cases new₂ <;> cases new₃ <;> simp [UserField.set]

/-- An update that writes no column is that of a row without older fields. -/
lemma WritesOlder.nothing {u : User} {data : UserChanges} (older : WritesOlder env u data)
    (empty : data = {}) : ¬ HasOlderField env u := by
  obtain ⟨email, firstName, lastName⟩ := older
  subst empty
  simp [HasOlderField, User.encrypted, email.mp rfl, firstName.mp rfl, lastName.mp rfl]

lemma exhausted_page {cursor : Option Uuid} {page : List User} :
    Exhausted (⟨.userFindMany cursor BATCH, .ok page⟩ :: h) ↔ page = [] ∨ Exhausted h := by
  constructor
  · rintro ⟨cursor', mem⟩
    rcases List.mem_cons.mp mem with same | old
    · exact .inl (Except.ok.inj (eq_of_heq (Call.mk.inj same).2)).symm
    · exact .inr ⟨cursor', old⟩
  · rintro (rfl | ⟨cursor', old⟩)
    · exact ⟨cursor, List.mem_cons_self⟩
    · exact ⟨cursor', List.mem_cons_of_mem _ old⟩

lemma exhausted_other {k : OwnCall}
    (other : ∀ cursor page, k ≠ ⟨.userFindMany cursor BATCH, .ok page⟩) :
    Exhausted (k :: h) ↔ Exhausted h := by
  constructor
  · rintro ⟨cursor, mem⟩
    exact ⟨cursor, (List.mem_cons.mp mem).resolve_left fun same => other _ _ same.symm⟩
  · rintro ⟨cursor, old⟩
    exact ⟨cursor, List.mem_cons_of_mem _ old⟩

/-- Visiting a page settles its rows. -/
lemma visits_obeys {page : List User} {updated : Nat} (read : page ⊆ seen h) :
    (page.foldlM (visit env) updated).Obeys (SweepMay env)
      (fun h' _ => Within h h' ∧ ∀ u ∈ page, Settled env h' u) h := by
  induction page generalizing updated h with
  | nil => exact ⟨.refl h, by simp⟩
  | cons user page ih =>
    rw [List.foldlM_cons]
    have one : (visit env updated user).Obeys (SweepMay env)
        (fun h' _ => Within h h' ∧ Settled env h' user) h := by
      refine obeys_bind reencryptRow_obeys ?_
      rintro h₁ data ⟨within, rewrites, older⟩
      have here : user ∈ seen h₁ := within.page ▸ read List.mem_cons_self
      split
      · rename_i nothing
        exact ⟨within, .inl (older.nothing nothing)⟩
      · rename_i something
        refine await_bind_obeys (M := fun h' r => Within h h' ∧ ∀ u, r = .ok u →
          Settled env h' user) (perform_obeys ⟨user, here, rfl, something, rewrites, older⟩ ?_) ?_
        · refine fun r => ⟨within.cons rfl nofun, ?_⟩
          rintro u rfl
          exact .inr ⟨data, u, List.mem_cons_self⟩
        · exact fun h₂ r done => ⟨done.1, done.2 r rfl⟩
    refine obeys_bind one ?_
    rintro h₁ _ ⟨within₁, settled⟩
    refine (ih fun u hu => within₁.page ▸ read (List.mem_cons_of_mem _ hu)).mono
      (fun _ _ may => may) ?_
    rintro h₂ _ ⟨within₂, rest⟩
    refine ⟨within₁.trans within₂, fun u hu => ?_⟩
    rcases List.mem_cons.mp hu with rfl | hu
    · exact settled.subset within₂.calls
    · exact rest u hu

lemma loop_obeys (fuel : Nat) {cursor : Option Uuid} {updated : Nat} (last : cursor = lastSeen h)
    (going : ¬ Exhausted h) (settled : ∀ u ∈ seen h, Settled env h u) :
    (loop env fuel cursor updated).Obeys (SweepMay env)
      (fun h' _ => Exhausted h' ∧ ∀ u ∈ seen h', Settled env h' u) h := by
  induction fuel generalizing cursor updated h with
  | zero => trivial
  | succ fuel ih =>
    refine await_bind_obeys (M := fun h' r => ∀ page, r = .ok page →
      h' = ⟨.userFindMany cursor BATCH, .ok page⟩ :: h)
      (perform_obeys ⟨last, rfl, going, settled⟩ ?_) ?_
    · rintro _ page rfl
      rfl
    intro h₁ page calls
    obtain rfl := calls page rfl
    split
    · rename_i nothing
      obtain rfl := List.getLast?_eq_none_iff.mp nothing
      refine ⟨⟨cursor, List.mem_cons_self⟩, fun u hu => ?_⟩
      rw [seen_cons] at hu
      exact (settled u (by simpa [pageRows] using hu)).subset (List.subset_cons_self _ _)
    · rename_i user ends
      have rows := seen_page cursor BATCH page h
      refine obeys_bind (visits_obeys fun u hu => rows ▸ List.mem_append_right _ hu) ?_
      rintro h₂ n ⟨within, visited⟩
      refine ih ?_ (within.going ?_) fun u hu => ?_
      · rw [lastSeen, within.page, ← lastSeen, lastSeen_page, ends]
        rfl
      · intro exhausted
        obtain rfl := (exhausted_page.mp exhausted).resolve_right going
        cases ends
      · rw [within.page, rows] at hu
        rcases List.mem_append.mp hu with old | new
        · exact (settled u old).subset
            (List.Subset.trans (List.subset_cons_self _ _) within.calls)
        · exact visited u new

/-- All that the script may do after what it has done. -/
theorem main_sweeps (fuel : Nat) :
    (main env fuel).Obeys (SweepMay env)
      (fun h _ => Exhausted h ∧ ∀ u ∈ seen h, Settled env h u) [] :=
  loop_obeys fuel rfl (by simp [Exhausted]) (by simp [seen])

lemma main_obeys (fuel : Nat) : (main env fuel).Obeys (ScriptMay env) (fun _ _ => True) [] :=
  (main_sweeps fuel).mono (fun _ _ sweeps => sweeps.may) fun _ _ _ => trivial

lemma main_uses (fuel : Nat) : (main env fuel).Uses ScriptCall :=
  (main_obeys fuel).mono (fun _ _ may => may.call) fun _ _ _ => trivial

end Rules
end Reencrypt
end BajaValle
