import BajaValle.Reencrypt
import BajaValle.Serial
import Mathlib.Data.List.Sort

/-!
# Key rotation

The reencrypt script run alone under a key map with a new current version. Rows
of the table at the start are visited in id order; those visited have been
rotated, the others are still as they were.
-/

namespace BajaValle

open CallPrograms Prog EncryptionService Reencrypt

/-- The new value of a column with this text, if it needs one. -/
def Renewed (env : Env) (version : JsNumber) (context text old : String) :
    Option String → Prop
  | none => Sealed env version context text old
  | some value => Sealed env version context text value ∧ versionOf old ≠ some version

/-- The same row with its fields under the current version. -/
structure Rotated (env : Env) (version : JsNumber) (u u' : User) : Prop where
  kept : { u' with emailEnc := u.emailEnc, firstNameEnc := u.firstNameEnc,
                   lastNameEnc := u.lastNameEnc, updatedAt := u.updatedAt } = u
  person : ∃ p, Enciphered env u p ∧ Enciphered (env.only version) u' p

/-- What the script writes to a row, or nothing if no field is older. -/
structure Renewal (env : Env) (version : JsNumber) (u : User) (data : UserChanges) : Prop where
  rotates : ∀ now, Rotated env version u (data.apply now u)
  empty_iff : data = {} ↔ ¬ HasOlderField env u
  hash : data.emailHash = none

section Rows
variable {env : Env} {version : JsNumber} {context text old : String} {new : Option String}
  {u : User} {p : Person}

lemma Renewed.sealed (h : Renewed env version context text old new) :
    Sealed env version context text (new.getD old) := by
  cases new with
  | none => exact h
  | some value => exact h.1

lemma Renewed.eq_none_iff (h : Renewed env version context text old new) :
    new = none ↔ versionOf old = some version := by
  cases new with
  | none => exact ⟨fun _ => Sealed.names h, fun _ => rfl⟩
  | some value => simpa using h.2

lemma only_keeps (env : Env) (version : JsNumber) : (env.only version).KeepsKeys env := by
  refine ⟨env.ENCRYPTION_KEYS, rfl, fun v key held => ?_⟩
  rw [Env.only, Env.withKeys_ENCRYPTION_KEYS] at held
  by_cases same : v = version
  · rwa [same, lookup_filter_self, ← same] at held
  · rw [lookup_filter_other same] at held
    cases held

/-- Rotating a rotated row again changes nothing for the person. -/
lemma Rotated.trans {u₁ u₂ u₃ : User} (first : Rotated env version u₁ u₂)
    (second : Rotated env version u₂ u₃) : Rotated env version u₁ u₃ := by
  obtain ⟨p, before, between⟩ := first.person
  obtain ⟨p', between', after⟩ := second.person
  obtain rfl := (between.keeps (only_keeps env version)).unique between'
  refine ⟨?_, p, before, after⟩
  rw [← first.kept, ← second.kept]

/-- Renewed columns are what the update of a row writes. -/
lemma renewal_of_renewed {email firstName lastName : Option String}
    (current : currentVersion env = some version) (enciphered : Enciphered env u p)
    (hemail : Renewed env version UsersService.FIELD.email p.email u.emailEnc email)
    (hfirst : Renewed env version UsersService.FIELD.firstName p.firstName u.firstNameEnc firstName)
    (hlast : Renewed env version UsersService.FIELD.lastName p.lastName u.lastNameEnc lastName) :
    Renewal env version u
      { emailEnc := email, firstNameEnc := firstName, lastNameEnc := lastName } where
  rotates _ := ⟨rfl, p, enciphered, ⟨_, hemail.sealed.only⟩, ⟨_, hfirst.sealed.only⟩, _,
    hlast.sealed.only⟩
  empty_iff := by
    simp [HasOlderField, User.encrypted, current, hemail.eq_none_iff, hfirst.eq_none_iff,
      hlast.eq_none_iff]
  hash := rfl

end Rows

section Script
variable {env : Env} {mayFail : Prop} {version : JsNumber} {t done : List User}
  {h h' : List OwnCall} {w : World}

/-- Of the table `t`, the visited rows that needed it are rotated. -/
def Underway (env : Env) (version : JsNumber) (t done users : List User) : Prop :=
  ∃ f : User → User, users = t.map f ∧ ∀ u ∈ t,
    if u ∈ done ∧ HasOlderField env u then Rotated env version u (f u) else f u = u

/-- Wherever the script may stop. -/
def Stoppable (env : Env) (version : JsNumber) (t : List User) (h : List OwnCall) (w : World) :
    Prop :=
  (∃ done, Underway env version t done w.users) ∧ ∀ k ∈ h, ∀ id data,
    k.op = .userUpdate id data → ∃ u ∈ t, u.id = id ∧ HasOlderField env u

/-- The calls between two reads of pages. -/
def RowCall : Op → Prop
  | .randomBytes _ | .userUpdate _ _ => True
  | _ => False

/-- The outcome is a value with the property, unless failures are admitted. -/
def Returns {α : Type} (mayFail : Prop) (post : α → Prop) : Except Failure α → Prop
  | .ok a => post a
  | .error _ => mayFail

lemma seen_extends (ext : Extends RowCall h h') : seen h' = seen h := by
  obtain ⟨new, rfl, all⟩ := ext
  induction new with
  | nil => rfl
  | cons k new ih =>
    have rest := ih fun k' hk' => all k' (List.mem_cons_of_mem _ hk')
    have none : pageRows k = [] := by
      have row := all k List.mem_cons_self
      obtain ⟨op, r⟩ := k
      cases op <;> first | rfl | exact row.elim
    rw [List.cons_append, seen_cons, rest, none, List.append_nil]

lemma Rotated.id {u u' : User} (h : Rotated env version u u') : u'.id = u.id := by
  have same := congrArg User.id h.kept
  exact same

lemma Underway.id {f : User → User} {u : User} (h : if u ∈ done ∧ HasOlderField env u then
    Rotated env version u (f u) else f u = u) : (f u).id = u.id := by
  split at h
  · exact h.id
  · rw [h]

lemma Underway.ids {users : List User} (underway : Underway env version t done users) :
    users.map User.id = t.map User.id := by
  obtain ⟨f, rfl, each⟩ := underway
  rw [List.map_map]
  exact List.map_congr_left fun u hu => Underway.id (each u hu)

/-- A row that was not visited is the row of the start. -/
lemma Underway.unvisited {users : List User} (underway : Underway env version t done users)
    {u : User} (hu : u ∈ users) (fresh : u.id ∉ done.map User.id) : u ∈ t := by
  obtain ⟨f, rfl, each⟩ := underway
  obtain ⟨v, hv, rfl⟩ := List.mem_map.mp hu
  have here := each v hv
  have same := Underway.id here
  rw [if_neg] at here
  · rwa [here]
  · rintro ⟨visited, _⟩
    exact fresh (same ▸ List.mem_map_of_mem visited)

lemma Underway.mem {users : List User} (underway : Underway env version t done users)
    {u : User} (hu : u ∈ t) (fresh : u ∉ done) : u ∈ users := by
  obtain ⟨f, rfl, each⟩ := underway
  have here := each u hu
  rw [if_neg fun both => fresh both.1] at here
  exact here ▸ List.mem_map_of_mem hu

/-- A row without an older field needs no update. -/
lemma Underway.passed {users : List User} (underway : Underway env version t done users)
    {u : User} (current : ¬ HasOlderField env u) : Underway env version t (done ++ [u]) users := by
  obtain ⟨f, rfl, each⟩ := underway
  refine ⟨f, rfl, fun v hv => ?_⟩
  have same : (v ∈ done ++ [u] ∧ HasOlderField env v) ↔ (v ∈ done ∧ HasOlderField env v) := by
    simp only [List.mem_append, List.mem_singleton]
    constructor
    · rintro ⟨visited | rfl, older⟩
      · exact ⟨visited, older⟩
      · exact absurd older current
    · rintro ⟨visited, older⟩
      exact ⟨.inl visited, older⟩
  simp only [same]
  exact each v hv

lemma Underway.updated {users : List User} (underway : Underway env version t done users)
    (unique : (t.map User.id).Nodup) {u : User} (hu : u ∈ t) (fresh : u ∉ done)
    (older : HasOlderField env u) {c : UserChanges} {now : Nat}
    (rotated : Rotated env version u (c.apply now u)) :
    Underway env version t (done ++ [u])
      (users.map fun v => if v.id = u.id then c.apply now v else v) := by
  obtain ⟨f, rfl, each⟩ := underway
  refine ⟨_, List.map_map, fun v hv => ?_⟩
  have here := each v hv
  have id := Underway.id here
  by_cases same : v = u
  · subst same
    rw [if_neg fun both => fresh both.1] at here
    rw [if_pos ⟨by simp, older⟩]
    simpa [here] using rotated
  · have other : v.id ≠ u.id := fun eq => same (List.inj_on_of_nodup_map unique hv hu eq)
    simpa [same, id, other] using here

end Script

section Script
variable {env : Env} {mayFail : Prop} {version : JsNumber} {key : Bytes} {t : List User}
  {I : List OwnCall → World → Prop} {h : List OwnCall} {w : World}
  (current : currentVersion env = some version) (safe : SafeVersion version)
  (held : env.ENCRYPTION_KEYS.lookup version = some key)
  (stable : ∀ h w ch n bytes w', I h w → exec env ch (.randomBytes n) w = some (bytes, w') →
    I (⟨.randomBytes n, bytes⟩ :: h) w')

include current safe held stable

lemma encryptFresh_serial {text context : String} (here : I h w) :
    Serial env mayFail I (fun h' out w' => w'.users = w.users ∧
      Extends RowCall h h' ∧ ∃ value, out = .ok value ∧ Sealed env version context text value) h w
      (encryptFresh env text context) := by
  refine meets_bind (serial_perform here ?_)
  intro ch iv w' _ answered
  have users := (exec_readOnly answered trivial).2
  have after : I (⟨.randomBytes IV_BYTES, iv⟩ :: h) w' := stable h w ch _ iv w' here answered
  refine ⟨after, ?_, by simp⟩
  rintro _ ⟨⟩
  refine serial_ofExcept after ⟨users, (Extends.refl RowCall h).cons trivial,
    payload env.gcm version key iv text context, ?_, key, iv, safe, held,
    exec_randomBytes answered, rfl⟩
  simp [encrypt, current, held]

lemma reencryptField_serial {v : JsNumber} {text context : String} {user : User}
    {data : UserChanges} {field : UserField}
    (fixed : Sealed env v context text (field.of user)) (here : I h w) :
    Serial env mayFail I (fun h' out w' => w'.users = w.users ∧
      Extends RowCall h h' ∧ ∃ new, Renewed env version context text (field.of user) new ∧
        out = .ok (new.elim data fun value => field.set data value)) h w
      (reencryptField env user data field context) := by
  unfold reencryptField
  rw [fixed.needsReencryption, current]
  by_cases same : v = version
  · subst same
    simp only [ne_eq, not_true_eq_false, decide_false, ofExcept_ok, ret_bind]
    exact ⟨here, rfl, .refl _ _, none, fixed, rfl⟩
  · have older : decide (some v ≠ some version) = true := by simpa using same
    simp only [older, ofExcept_ok, ret_bind, if_true]
    refine meets_bind ((?_ : Serial env mayFail I (fun h' out w' =>
      w'.users = w.users ∧ Extends RowCall h h' ∧ ∃ value, out = .ok value ∧
        Sealed env version context text value) h w (reencrypt env (field.of user) context)).mono ?_)
    · unfold reencrypt
      rw [fixed.decrypt]
      exact encryptFresh_serial current safe held stable here
    · rintro h' out w' here' ⟨users, ext, value, rfl, renewed⟩
      refine ⟨?_, by simp⟩
      rintro _ ⟨⟩
      refine ⟨here', users, ext, some value, ⟨renewed, ?_⟩, rfl⟩
      rw [fixed.names]
      simpa using same

lemma reencryptRow_serial {user : User} {p : Person} (enciphered : Enciphered env user p)
    (here : I h w) :
    Serial env mayFail I (fun h' out w' => w'.users = w.users ∧ Extends RowCall h h' ∧
      ∃ data, out = .ok data ∧ Renewal env version user data) h w (reencryptRow env user) := by
  obtain ⟨⟨v₁, email⟩, ⟨v₂, firstName⟩, v₃, lastName⟩ := id enciphered
  unfold reencryptRow USER_FIELDS
  simp only [List.foldlM_cons, List.foldlM_nil, bind_pure]
  refine meets_bind ((reencryptField_serial current safe held stable email
    here).mono ?_)
  rintro h₁ out₁ w₁ here₁ ⟨users₁, ext₁, new₁, renewed₁, rfl⟩
  refine ⟨?_, by simp⟩
  rintro _ ⟨⟩
  refine meets_bind ((reencryptField_serial current safe held stable
    firstName here₁).mono ?_)
  rintro h₂ out₂ w₂ here₂ ⟨users₂, ext₂, new₂, renewed₂, rfl⟩
  refine ⟨?_, by simp⟩
  rintro _ ⟨⟩
  refine (reencryptField_serial current safe held stable lastName
    here₂).mono ?_
  rintro h₃ out₃ w₃ here₃ ⟨users₃, ext₃, new₃, renewed₃, rfl⟩
  refine ⟨users₃.trans (users₂.trans users₁), (ext₁.trans ext₂).trans ext₃, _, rfl, ?_⟩
  have renewal := renewal_of_renewed current enciphered renewed₁ renewed₂ renewed₃
  cases new₁ <;> cases new₂ <;> cases new₃ <;> exact renewal

end Script

section Visits
variable {env : Env} {mayFail : Prop} {version : JsNumber} {key : Bytes} {t done : List User}
  {h : List OwnCall} {w : World} {n : Nat}
  (current : currentVersion env = some version) (safe : SafeVersion version)
  (held : env.ENCRYPTION_KEYS.lookup version = some key) (unique : (t.map User.id).Nodup)
  (table : ∀ u ∈ t, ∃ p, Enciphered env u p)

lemma Stoppable.draw (h : List OwnCall) (w : World) (ch : Choice) (n : Nat) (bytes : Bytes)
    (w' : World) (here : Stoppable env version t h w)
    (answered : exec env ch (.randomBytes n) w = some (bytes, w')) :
    Stoppable env version t (⟨.randomBytes n, bytes⟩ :: h) w' := by
  refine ⟨(exec_readOnly answered trivial).2 ▸ here.1, fun k hk id data op => ?_⟩
  rcases List.mem_cons.mp hk with rfl | hk
  · cases op
  · exact here.2 k hk id data op

include current safe held unique table

lemma visit_serial {u : User} (hu : u ∈ t) (fresh : u ∉ done)
    (here : Stoppable env version t h w) (underway : Underway env version t done w.users) :
    Serial env mayFail (Stoppable env version t) (fun h' out w' => Extends RowCall h h' ∧
      Returns mayFail (fun n' => n' = n + (if HasOlderField env u then 1 else 0) ∧
        Underway env version t (done ++ [u]) w'.users) out) h w (visit env n u) := by
  obtain ⟨p, enciphered⟩ := table u hu
  refine meets_bind ((reencryptRow_serial current safe held Stoppable.draw enciphered here).mono ?_)
  rintro h₁ _ w₁ here₁ ⟨users, ext, data, rfl, renewal⟩
  refine ⟨?_, by simp⟩
  rintro _ ⟨⟩
  have underway₁ : Underway env version t done w₁.users := users ▸ underway
  by_cases older : HasOlderField env u
  · have nonempty : data ≠ {} := fun empty => renewal.empty_iff.mp empty older
    simp only [nonempty, older, if_true, if_false]
    refine meets_bind (serial_await (serial_perform here₁ ?_))
    intro ch r w₂ healthy answered
    have calls : ∀ k ∈ (⟨.userUpdate u.id data, r⟩ : OwnCall) :: h₁, ∀ id data,
        k.op = .userUpdate id data → ∃ u ∈ t, u.id = id ∧ HasOlderField env u := by
      intro k hk id data op
      rcases List.mem_cons.mp hk with rfl | hk
      · cases op
        exact ⟨u, hu, rfl, older⟩
      · exact here₁.2 k hk id data op
    have extended : Extends RowCall h (⟨.userUpdate u.id data, r⟩ :: h₁) := ext.cons trivial
    have stored : u ∈ w₁.users := underway₁.mem hu fresh
    cases exec_userUpdate answered with
    | failed fails same =>
      refine ⟨⟨⟨done, same ▸ underway₁⟩, calls⟩, by simp, ?_, by simp⟩
      rintro _ ⟨⟩
      exact ⟨by simp, fun _ _ => ⟨extended, healthy fails⟩⟩
    | missing _ absent _ => simpa using List.find?_eq_none.mp absent u stored
    | taken _ _ _ e changes =>
      rw [renewal.hash] at changes
      cases changes
    | updated _ _ _ _ rows =>
      have rotated := underway₁.updated unique hu fresh older (renewal.rotates ch.now)
      rw [← rows] at rotated
      refine ⟨⟨⟨_, rotated⟩, calls⟩, ?_, by simp, by simp⟩
      rintro _ ⟨⟩
      refine ⟨?_, by simp⟩
      rintro _ ⟨⟩
      exact ⟨⟨⟨_, rotated⟩, calls⟩, extended, rfl, rotated⟩
  · have empty : data = {} := renewal.empty_iff.mpr older
    simp only [empty, older, if_true, if_false]
    exact ⟨here₁, ext, rfl, underway₁.passed older⟩

/-- A page of rows of the table, none of them visited before. -/
lemma visits_serial {page : List User} (rows : page ⊆ t) (nodup : (done ++ page).Nodup)
    (here : Stoppable env version t h w) (underway : Underway env version t done w.users) :
    Serial env mayFail (Stoppable env version t) (fun h' out w' => Extends RowCall h h' ∧
      Returns mayFail (fun n' => n' = n + page.countP (HasOlderField env ·) ∧
        Underway env version t (done ++ page) w'.users) out) h w
      (page.foldlM (visit env) n) := by
  induction page generalizing done h w n with
  | nil => exact ⟨here, .refl _ _, rfl, by simpa using underway⟩
  | cons u page ih =>
    have fresh : u ∉ done := fun visited =>
      List.disjoint_of_nodup_append nodup visited List.mem_cons_self
    rw [List.foldlM_cons]
    refine meets_bind ((visit_serial current safe held unique table (rows List.mem_cons_self)
      fresh here underway).mono ?_)
    rintro h₁ out₁ w₁ here₁ ⟨ext₁, returns⟩
    constructor
    · rintro _ rfl
      obtain ⟨rfl, underway₁⟩ := returns
      refine (ih (List.subset_of_cons_subset rows) (by simpa using nodup) here₁ underway₁).mono ?_
      rintro h₂ out₂ w₂ _ ⟨ext₂, returns₂⟩
      refine ⟨ext₁.trans ext₂, ?_⟩
      cases out₂ with
      | error e => exact returns₂
      | ok n' =>
        obtain ⟨rfl, underway₂⟩ := returns₂
        refine ⟨?_, by simpa using underway₂⟩
        by_cases older : HasOlderField env u
        · simp [older]
          omega
        · simp [older]
    · rintro e rfl
      exact ⟨ext₁, returns⟩

end Visits

section Pages
variable {users t visited : List User} {w : World}

def sortedIds (users : List User) : List Uuid := (users.map User.id).insertionSort (· ≤ ·)

lemma sortedIds_pairwise (unique : (users.map User.id).Nodup) :
    (sortedIds users).Pairwise (· < ·) := by
  have sorted := List.pairwise_insertionSort (· ≤ ·) (users.map User.id)
  have nodup := (List.perm_insertionSort (· ≤ ·) (users.map User.id)).nodup_iff.mpr unique
  exact (sorted.and nodup).imp fun ⟨le, ne⟩ => Nat.lt_of_le_of_ne le ne

lemma map_id_insertionSort (users : List User) :
    (users.insertionSort fun u v => u.id ≤ v.id).map User.id = sortedIds users :=
  List.map_insertionSort _ _ _ _ fun _ _ _ _ => Iff.rfl

lemma mem_userPage {emptyPage : Bool} {cursor : Option Uuid} {take : Nat} {u : User}
    (hu : u ∈ w.userPage emptyPage cursor take) : u ∈ w.users := by
  unfold World.userPage at hu
  cases cursor with
  | none => exact (List.mem_insertionSort _).mp (List.mem_of_mem_take hu)
  | some id =>
    simp only at hu
    split at hu
    · cases hu
    · exact (List.mem_insertionSort _).mp
        (List.mem_filter.mp (List.mem_of_mem_drop (List.mem_of_mem_take hu))).1

/-- A page holds the next rows after the rows already seen. -/
lemma userPage_ids (unique : (w.users.map User.id).Nodup) {before rest : List Uuid}
    (split : sortedIds w.users = before ++ rest) (emptyPage : Bool) (take : Nat) :
    (w.userPage emptyPage before.getLast? take).map User.id = rest.take take := by
  unfold World.userPage
  rcases List.eq_nil_or_concat' before with rfl | ⟨earlier, id, rfl⟩
  · rw [List.nil_append] at split
    simp only [List.getLast?_nil, List.map_take, map_id_insertionSort, split]
  · have sorted := sortedIds_pairwise unique
    have stored : (w.users.insertionSort fun u v => u.id ≤ v.id).any (·.id = id) = true := by
      have mem : id ∈ sortedIds w.users := by simp [split]
      rw [← map_id_insertionSort] at mem
      obtain ⟨u, hu, rfl⟩ := List.mem_map.mp mem
      exact List.any_eq_true.mpr ⟨u, hu, by simp⟩
    have later : (sortedIds w.users).filter (fun x => decide (id ≤ x)) = id :: rest := by
      rw [split, List.append_assoc] at sorted ⊢
      obtain ⟨_, tail, below⟩ := List.pairwise_append.mp sorted
      have above := (List.pairwise_cons.mp tail).1
      rw [List.filter_append, List.filter_eq_nil_iff.mpr, List.filter_eq_self.mpr]
      · rfl
      · intro x hx
        rcases List.mem_cons.mp hx with rfl | hx
        · simp
        · simpa using Nat.le_of_lt (above x hx)
      · intro x hx
        simpa using below x hx id List.mem_cons_self
    have ids : ((w.users.insertionSort fun u v => u.id ≤ v.id).filter
        fun u => decide (id ≤ u.id)).map User.id = id :: rest := by
      rw [← later, ← map_id_insertionSort, List.filter_map]
      rfl
    simp only [List.getLast?_append, List.getLast?_singleton, Option.some_or, stored, Bool.not_true,
      Bool.and_false, Bool.false_eq_true, if_false, List.map_take, List.map_drop]
    rw [ids, List.drop_one, List.tail_cons]

end Pages

section Loop
variable {env : Env} {mayFail : Prop} {version : JsNumber} {key : Bytes} {t visited : List User}
  {h : List OwnCall} {w : World}
  (current : currentVersion env = some version) (safe : SafeVersion version)
  (held : env.ENCRYPTION_KEYS.lookup version = some key) (unique : (t.map User.id).Nodup)
  (table : ∀ u ∈ t, ∃ p, Enciphered env u p)
include current safe held unique table

/-- The loop from where the rows `visited` have been seen and dealt with. -/
lemma loop_serial (fuel : Nat) (rest : List Uuid) (rows : visited ⊆ t)
    (split : sortedIds t = visited.map User.id ++ rest) (enough : rest.length ≤ BATCH * fuel)
    (read : seen h = visited) (here : Stoppable env version t h w)
    (underway : Underway env version t visited w.users) :
    Serial env mayFail (Stoppable env version t) (fun h' out w' => Returns mayFail (fun n =>
      seen h' ⊆ t ∧ (seen h').map User.id = sortedIds t ∧
        n = (seen h').countP (HasOlderField env ·) ∧ Underway env version t (seen h') w'.users) out)
      h w (loop env (fuel + 1) (visited.map User.id).getLast?
        (visited.countP (HasOlderField env ·))) := by
  induction fuel using Nat.strongRecOn generalizing visited rest h w with
  | ind fuel ih =>
  refine meets_bind (serial_await (serial_perform here ?_))
  intro ch r w₁ healthy answered
  obtain ⟨users, outcome⟩ := exec_userFindMany answered
  have underway₁ : Underway env version t visited w₁.users := users ▸ underway
  have here₁ :
    Stoppable env version t (⟨.userFindMany (visited.map User.id).getLast? BATCH, r⟩ :: h)
      w₁ := by
    refine ⟨⟨visited, underway₁⟩, fun k hk id data op => ?_⟩
    rcases List.mem_cons.mp hk with rfl | hk
    · cases op
    · exact here.2 k hk id data op
  rcases outcome with ⟨fails, rfl⟩ | rfl
  · refine ⟨here₁, by simp, ?_, by simp⟩
    rintro _ ⟨⟩
    exact ⟨by simp, fun _ _ => healthy fails⟩
  refine ⟨here₁, ?_, by simp, by simp⟩
  rintro page hpage
  obtain rfl := Except.ok.inj (Except.ok.inj hpage)
  refine ⟨?_, by simp⟩
  rintro page hpage
  obtain rfl := Except.ok.inj hpage
  generalize hpage : w.userPage ch.emptyPage (visited.map User.id).getLast? BATCH = page at here₁ ⊢
  have ids : page.map User.id = rest.take BATCH := by
    rw [← hpage]
    exact userPage_ids (underway.ids ▸ unique) (by rw [sortedIds, underway.ids]; exact split) _ _
  have nodup : (visited.map User.id ++ rest).Nodup := by
    rw [← split]
    exact (List.perm_insertionSort _ _).nodup_iff.mpr unique
  have fresh : ∀ u ∈ page, u ∈ t := by
    intro u hu
    refine underway.unvisited (mem_userPage (hpage ▸ hu)) fun seen => ?_
    have later : u.id ∈ rest := List.mem_of_mem_take (ids ▸ List.mem_map_of_mem hu)
    exact List.disjoint_of_nodup_append nodup seen later
  cases last : page.getLast? with
  | none =>
    obtain rfl := List.getLast?_eq_none_iff.mp last
    obtain rfl : rest = [] := by simpa [BATCH] using ids.symm
    refine ⟨here₁, ?_⟩
    simp only [Returns, seen_cons, read, pageRows, List.append_nil] at split ⊢
    exact ⟨rows, split.symm, trivial, underway₁⟩
  | some user =>
    have sum : rest.take BATCH ++ rest.drop BATCH = rest := List.take_append_drop _ _
    have together : (visited ++ page).Nodup := by
      refine List.Nodup.of_map User.id ?_
      rw [List.map_append, ids]
      rw [← sum, ← List.append_assoc] at nodup
      exact nodup.of_append_left
    refine meets_bind ((visits_serial current safe held unique table fresh together here₁
      underway₁).mono ?_)
    rintro h₂ out w₂ here₂ ⟨ext, returns⟩
    constructor
    · rintro _ rfl
      obtain ⟨rfl, underway₂⟩ := returns
      have nonempty : 0 < rest.length := by
        have length := congrArg List.length ids
        have some := List.length_pos_of_mem (List.mem_of_getLast? last)
        simp only [List.length_map, List.length_take] at length
        omega
      obtain ⟨fuel, rfl⟩ : ∃ k, fuel = k + 1 := Nat.exists_eq_succ_of_ne_zero (by rintro rfl; omega)
      rw [Nat.mul_succ] at enough
      have cursor : ((visited ++ page).map User.id).getLast? = Option.some user.id := by
        simp [last]
      have next := ih fuel (by omega) (rest.drop BATCH) (List.append_subset.mpr ⟨rows, fresh⟩)
        (by rw [List.map_append, ids, List.append_assoc, sum]; exact split)
        (by rw [List.length_drop]; omega)
        (by rw [seen_extends ext, seen_cons, read]; rfl) here₂ underway₂
      rwa [cursor, List.countP_append] at next
    · rintro e rfl
      exact returns

end Loop

/-- A key map that keeps the keys of another and has a current version. -/
structure NewKeys (env env' : Env) (version : JsNumber) : Prop where
  keeps : env.KeepsKeys env'
  current : currentVersion env' = some version
  safe : SafeVersion version

/-- What the script does to a row: the profile is the same without the old keys
and nothing but the encrypted columns and `updatedAt` has changed. -/
structure Reencrypted (env env' : Env) (version : JsNumber) (u u' : User) : Prop where
  versions : ∀ value ∈ u'.encrypted, versionOf value = some version
  profile : ∃ profile, UsersService.toProfile env u = .ok profile ∧
    UsersService.toProfile (env'.only version) u' = .ok profile
  kept : { u' with emailEnc := u.emailEnc, firstNameEnc := u.firstNameEnc,
                   lastNameEnc := u.lastNameEnc, updatedAt := u.updatedAt } = u

/-- A run of the script to its end in which no call fails. -/
abbrev Completes (env : Env) (fuel : Nat) (w : World) (h : List OwnCall)
    (out : Except Failure Nat) (w' : World) : Prop :=
  Alone env (Reencrypt.main env (fuel + 1)) w h out w'

section Results
variable {env env' : Env} {version : JsNumber} {t users done : List User} {w w' : World}
  {fuel : Nat}

lemma Rotated.reencrypted {u u' : User} (rotated : Rotated env' version u u')
    (keys : NewKeys env env' version) (table : ∃ p, Enciphered env u p) :
    Reencrypted env env' version u u' := by
  obtain ⟨p, before, after⟩ := rotated.person
  obtain ⟨p', enciphered⟩ := table
  obtain rfl := before.unique (enciphered.keeps keys.keeps)
  refine ⟨after.versions, ⟨_, enciphered.toProfile, ?_⟩, rotated.kept⟩
  rw [after.toProfile, ← rotated.kept]

lemma Rotated.current {u u' : User} (rotated : Rotated env version u u')
    (current : currentVersion env = some version) : ¬ HasOlderField env u' := by
  obtain ⟨p, _, after⟩ := rotated.person
  rintro ⟨value, hv, older⟩
  exact older ((after.versions value hv).trans current.symm)

lemma rotated_self {u : User} {p : Person} (enciphered : Enciphered env u p)
    (current : currentVersion env = some version) (newest : ¬ HasOlderField env u) :
    Rotated env version u u := by
  have names : ∀ value ∈ u.encrypted, versionOf value = some version := by
    intro value hv
    by_contra older
    exact newest ⟨value, hv, current ▸ older⟩
  obtain ⟨⟨v₁, email⟩, ⟨v₂, firstName⟩, v₃, lastName⟩ := id enciphered
  obtain rfl := Option.some.inj (email.names.symm.trans (names _ (by simp [User.encrypted])))
  obtain rfl := Option.some.inj (firstName.names.symm.trans (names _ (by simp [User.encrypted])))
  obtain rfl := Option.some.inj (lastName.names.symm.trans (names _ (by simp [User.encrypted])))
  exact ⟨rfl, p, enciphered, ⟨_, email.only⟩, ⟨_, firstName.only⟩, _, lastName.only⟩

/-- Once every row has been visited, every row is rotated. -/
lemma Underway.finished (underway : Underway env version t done users)
    (current : currentVersion env = some version) (table : ∀ u ∈ t, ∃ p, Enciphered env u p)
    (all : t ⊆ done) : ∃ f, users = t.map f ∧ ∀ u ∈ t, Rotated env version u (f u) := by
  obtain ⟨f, rfl, each⟩ := underway
  refine ⟨f, rfl, fun u hu => ?_⟩
  have here := each u hu
  by_cases older : HasOlderField env u
  · rwa [if_pos ⟨all hu, older⟩] at here
  · obtain ⟨p, enciphered⟩ := table u hu
    rw [if_neg fun both => older both.2] at here
    rw [here]
    exact rotated_self enciphered current older

/-- The rows of a table that the script has left where it stopped. -/
lemma Underway.table (underway : Underway env version t done users)
    (table : ∀ u ∈ t, ∃ p, Enciphered env u p) : ∀ u ∈ users, ∃ p, Enciphered env u p := by
  obtain ⟨f, rfl, each⟩ := underway
  intro u hu
  obtain ⟨v, hv, rfl⟩ := List.mem_map.mp hu
  have here := each v hv
  split at here
  · obtain ⟨p, _, after⟩ := here.person
    exact ⟨p, after.keeps (only_keeps env version)⟩
  · rw [here]
    exact table v hv

/-- Rotating what a stopped script left is rotating the table. -/
lemma Underway.resumed (underway : Underway env version t done users) {g : User → User}
    (rotated : ∀ u ∈ users, Rotated env version u (g u)) :
    ∃ f, users.map g = t.map f ∧ ∀ u ∈ t, Rotated env version u (f u) := by
  obtain ⟨f, rfl, each⟩ := underway
  refine ⟨g ∘ f, List.map_map, fun u hu => ?_⟩
  have here := each u hu
  have there := rotated (f u) (List.mem_map_of_mem hu)
  split at here
  · exact here.trans there
  · rw [here] at there
    simpa [here] using there

lemma seen_perm {rows : List User} (unique : (t.map User.id).Nodup) (sub : rows ⊆ t)
    (ids : rows.map User.id = sortedIds t) : rows.Perm t := by
  have all := List.perm_insertionSort (· ≤ ·) (t.map User.id)
  have nodup : (rows.map User.id).Nodup := ids ▸ all.nodup_iff.mpr unique
  refine (List.perm_ext_iff_of_nodup (nodup.of_map _) (unique.of_map _)).mpr fun u => ?_
  refine ⟨fun hu => sub hu, fun hu => ?_⟩
  have mem : u.id ∈ rows.map User.id := ids ▸ all.mem_iff.mpr (List.mem_map_of_mem hu)
  obtain ⟨v, hv, same⟩ := List.mem_map.mp mem
  rwa [← List.inj_on_of_nodup_map unique (sub hv) hu same]

/-- The whole script from any table of enciphered rows. -/
theorem main_serial {mayFail : Prop} (keys : NewKeys env env' version)
    (unique : (w.users.map User.id).Nodup) (table : ∀ u ∈ w.users, ∃ p, Enciphered env' u p)
    (enough : w.users.length ≤ BATCH * fuel) :
    Serial env' mayFail (Stoppable env' version w.users) (fun h' out w' => Returns mayFail (fun n =>
      (seen h').Perm w.users ∧ n = w.users.countP (HasOlderField env' ·) ∧
        Underway env' version w.users w.users w'.users) out) [] w
          (Reencrypt.main env' (fuel + 1)) := by
  obtain ⟨e, he, heq⟩ := currentVersion_mem keys.current
  obtain ⟨key, held⟩ := lookup_of_mem he
  rw [heq] at held
  have nothing : Underway env' version w.users [] w.users := ⟨id, by simp, by simp⟩
  have length : (sortedIds w.users).length = w.users.length := by
    rw [sortedIds, List.length_insertionSort, List.length_map]
  refine (loop_serial (h := []) keys.current keys.safe held unique table fuel (sortedIds w.users)
    (List.nil_subset _) rfl (by omega) rfl ⟨⟨[], nothing⟩, by simp⟩ nothing).mono ?_
  rintro h out w' _ returns
  cases out with
  | error e => exact returns
  | ok n =>
    obtain ⟨sub, ids, rfl, underway⟩ := returns
    have perm := seen_perm unique sub ids
    refine ⟨perm, perm.countP_eq _, ?_⟩
    obtain ⟨f, rows, each⟩ := underway
    refine ⟨f, rows, fun u hu => ?_⟩
    have here := each u hu
    simpa [hu, perm.mem_iff.mpr hu] using here

/-- No call of the script is ever stuck. -/
lemma script_able (env : Env) (op : Op) (w : World) (call : ScriptCall op) :
    ∃ ch, Healthy False ch ∧ exec env ch op w ≠ none := by
  refine ⟨{ now := w.clock, bytes := List.replicate IV_BYTES 0 }, by simp [Healthy], ?_⟩
  cases op with
  | randomBytes n =>
    obtain rfl := call
    simp [exec, answer, IV_BYTES, UNIQUE_BYTES]
  | userFindMany => simp [exec, answer, query]
  | userUpdate => simp [exec, answer, query]
  | _ => exact call.elim

/-- A complete run from a table of enciphered rows. -/
lemma completes_rotates (keys : NewKeys env env' version) (unique : (w.users.map User.id).Nodup)
    (table : ∀ u ∈ w.users, ∃ p, Enciphered env' u p) (enough : w.users.length ≤ BATCH * fuel)
    {h : List OwnCall} {out : Except Failure Nat} (run : Completes env' fuel w h out w') :
    (seen h).Perm w.users ∧ out = .ok (w.users.countP (HasOlderField env' ·)) ∧
      (∃ f, w'.users = w.users.map f ∧ ∀ u ∈ w.users, Rotated env' version u (f u)) ∧
      w'.users.map User.id = w.users.map User.id := by
  obtain ⟨_, returns⟩ := (main_serial keys unique table enough).finishes run
  cases out with
  | error e => exact returns.elim
  | ok n =>
    obtain ⟨visited, rfl, underway⟩ := returns
    exact ⟨visited, rfl, underway.finished keys.current table (List.Subset.refl _), underway.ids⟩

/-- Over rows of the current version the script updates nothing. -/
lemma completes_idle (keys : NewKeys env env' version) (unique : (w.users.map User.id).Nodup)
    (table : ∀ u ∈ w.users, ∃ p, Enciphered env' u p) (enough : w.users.length ≤ BATCH * fuel)
    (newest : ∀ u ∈ w.users, ¬ HasOlderField env' u) {h : List OwnCall}
    {out : Except Failure Nat} (run : Completes env' fuel w h out w') :
    out = .ok 0 ∧ w'.users = w.users ∧ ∀ k ∈ h, ∀ id data, k.op ≠ .userUpdate id data := by
  obtain ⟨⟨_, calls⟩, returns⟩ := (main_serial keys unique table enough).finishes run
  cases out with
  | error e => exact returns.elim
  | ok n =>
    obtain ⟨_, rfl, f, rows, each⟩ := returns
    refine ⟨?_, ?_, fun k hk id data op => ?_⟩
    · rw [List.countP_eq_zero.mpr (by simpa using newest)]
    · have same : w.users.map f = w.users.map id := by
        refine List.map_congr_left fun u hu => ?_
        have here := each u hu
        rwa [if_neg fun both => newest u hu both.2] at here
      rw [rows, same, List.map_id]
    · obtain ⟨u, hu, _, older⟩ := calls k hk id data op
      exact newest u hu older

end Results

/-- Under a new current version the script terminates, visits every row once
and rotates every row; stopped anywhere and run again, it does the same; over
its own result it updates nothing. -/
theorem rotation_loses_nothing (env env' : Env) (version : JsNumber) (w : World) (fuel : Nat)
    (keys : NewKeys env env' version) (unique : (w.users.map User.id).Nodup)
    (table : ∀ u ∈ w.users, ∃ p, Enciphered env u p) (enough : w.users.length ≤ BATCH * fuel) :
    (∀ p h w₁, Runs (exec env') (Healthy False) (Reencrypt.main env' (fuel + 1)) [] w p h w₁ →
      ∃ p₂ h₂ w₂, Runs (exec env') (Healthy False) p h w₁ p₂ h₂ w₂ ∧ p₂.outcome ≠ none) ∧
    (∀ h out w', Completes env' fuel w h out w' →
      (seen h).Perm w.users ∧ out = .ok (w.users.countP (HasOlderField env' ·)) ∧
      w.users.Forall₂ (Reencrypted env env' version) w'.users ∧
      ∀ h₂ out₂ w₂, Completes env' fuel w' h₂ out₂ w₂ →
        out₂ = .ok 0 ∧ w₂.users = w'.users ∧ ∀ k ∈ h₂, ∀ id data, k.op ≠ .userUpdate id data) ∧
    ∀ p h₁ w₁, Runs (exec env') (Healthy True) (Reencrypt.main env' (fuel + 1)) [] w p h₁ w₁ →
      ∀ h₂ out₂ w₂, Completes env' fuel w₁ h₂ out₂ w₂ →
        w.users.Forall₂ (Reencrypted env env' version) w₂.users := by
  have table' : ∀ u ∈ w.users, ∃ p, Enciphered env' u p := by
    intro u hu
    obtain ⟨p, enciphered⟩ := table u hu
    exact ⟨p, enciphered.keeps keys.keeps⟩
  have reencrypted : ∀ f : User → User, (∀ u ∈ w.users, Rotated env' version u (f u)) →
      w.users.Forall₂ (Reencrypted env env' version) (w.users.map f) := by
    intro f rotated
    refine List.forall₂_map_right_iff.mpr (List.forall₂_same.mpr fun u hu => ?_)
    exact (rotated u hu).reencrypted keys (table u hu)
  refine ⟨?_, ?_, ?_⟩
  · intro p h w₁ run
    exact (run.uses (main_uses _)).terminates (script_able env') h w₁
  · intro h out w' run
    obtain ⟨visited, count, ⟨f, rows, rotated⟩, ids⟩ :=
      completes_rotates keys unique table' enough run
    refine ⟨visited, count, rows ▸ reencrypted f rotated, fun h₂ out₂ w₂ again => ?_⟩
    have row : ∀ u ∈ w'.users, (∃ p, Enciphered env' u p) ∧ ¬ HasOlderField env' u := by
      intro u hu
      rw [rows] at hu
      obtain ⟨v, hv, rfl⟩ := List.mem_map.mp hu
      obtain ⟨p, _, after⟩ := (rotated v hv).person
      exact ⟨⟨p, after.keeps (only_keeps env' version)⟩, (rotated v hv).current keys.current⟩
    exact completes_idle keys (ids ▸ unique) (fun u hu => (row u hu).1)
      (by rw [rows, List.length_map]; exact enough) (fun u hu => (row u hu).2) again
  · intro p h₁ w₁ stopped h₂ out₂ w₂ run
    obtain ⟨⟨done, underway⟩, _⟩ := (main_serial keys unique table' enough).runs stopped
    have length : w₁.users.length = w.users.length := by
      simpa using congrArg List.length underway.ids
    obtain ⟨_, _, ⟨g, rows, rotated⟩, _⟩ := completes_rotates keys (underway.ids ▸ unique)
      (underway.table table') (length ▸ enough) run
    obtain ⟨f, rows', rotated'⟩ := underway.resumed rotated
    rw [rows, rows']
    exact reencrypted f rotated'

namespace Plain

def rotatedEnv : Env := env.withKeys [(.finite 1, [1]), (.finite 2, [2])]

lemma newKeys : NewKeys env rotatedEnv (.finite 2) := by
  refine ⟨⟨_, rfl, fun version key held => ?_⟩, rfl, 2, rfl, by decide, by decide⟩
  simp only [env, List.lookup_cons, List.lookup_nil] at held ⊢
  split at held
  · exact held
  · cases held

def threeKeys : Env := env.withKeys [(.finite 1, [1]), (.finite 2, [2]), (.finite 3, [3])]

lemma newestOfThree : NewKeys threeKeys threeKeys (.finite 3) :=
  ⟨⟨_, rfl, fun _ _ held => held⟩, rfl, 3, rfl, by decide, by decide⟩

/-- The stored form of a text under one of the versions. -/
def storedUnder (version : Nat) (plaintext context : String) : String :=
  payload gcm (.finite version) [.ofNat version] (List.replicate 12 0) plaintext context

/-- A row whose email and names are under these versions. -/
def rowUnder (id : Uuid) (email : String) (emailVersion nameVersion : Nat) : User :=
  { user with
    id
    emailHash := UsersService.emailHash env email
    emailEnc := storedUnder emailVersion email UsersService.FIELD.email
    firstNameEnc := storedUnder nameVersion "Ana" UsersService.FIELD.firstName
    lastNameEnc := storedUnder nameVersion "Ruiz" UsersService.FIELD.lastName }

/-- A row of two older versions, one of the oldest and one of the newest. -/
def mixedWorld : World :=
  { world with
    users := [rowUnder 5 "eva@valle.mx" 2 1, rowUnder 1 "ana@valle.mx" 1 1,
      rowUnder 9 "luz@valle.mx" 3 3]
    uuids := [1, 5, 9] }

lemma sealed_storedUnder {version : Nat} (held : version = 1 ∨ version = 2 ∨ version = 3)
    (plaintext context : String) :
    Sealed threeKeys (.finite version) context plaintext
      (storedUnder version plaintext context) := by
  rcases held with rfl | rfl | rfl
  · exact ⟨[1], List.replicate 12 0, ⟨1, rfl, by decide, by decide⟩, rfl, rfl, rfl⟩
  · exact ⟨[2], List.replicate 12 0, ⟨2, rfl, by decide, by decide⟩, rfl, rfl, rfl⟩
  · exact ⟨[3], List.replicate 12 0, ⟨3, rfl, by decide, by decide⟩, rfl, rfl, rfl⟩

lemma mixedWorld_enciphered : ∀ u ∈ mixedWorld.users, ∃ p, Enciphered threeKeys u p := by
  have row : ∀ id email v v', (v = 1 ∨ v = 2 ∨ v = 3) → (v' = 1 ∨ v' = 2 ∨ v' = 3) →
      ∃ p, Enciphered threeKeys (rowUnder id email v v') p := fun id email v v' hv hv' =>
    ⟨⟨email, "Ana", "Ruiz"⟩, ⟨_, sealed_storedUnder hv _ _⟩, ⟨_, sealed_storedUnder hv' _ _⟩,
      _, sealed_storedUnder hv' _ _⟩
  intro u hu
  simp only [mixedWorld, List.mem_cons, List.not_mem_nil, or_false] at hu
  rcases hu with rfl | rfl | rfl <;> exact row _ _ _ _ (by decide) (by decide)

end Plain

theorem rotation_loses_nothing_world :
    ∃ h w', Completes Plain.threeKeys 1 Plain.mixedWorld h (.ok 2) w' ∧
      (seen h).Perm Plain.mixedWorld.users ∧
      Plain.mixedWorld.users.Forall₂ (Reencrypted Plain.threeKeys Plain.threeKeys (.finite 3))
        w'.users := by
  obtain ⟨ends, runs, _⟩ :=
    rotation_loses_nothing Plain.threeKeys Plain.threeKeys (.finite 3) Plain.mixedWorld
    1 Plain.newestOfThree (by decide) Plain.mixedWorld_enciphered (by decide)
  obtain ⟨p, h, w', run, ended⟩ := ends _ [] _ (.stop _ _ _)
  obtain ⟨out, ended⟩ := Option.ne_none_iff_exists'.mp ended
  obtain ⟨visited, count, rotated, _⟩ := runs h out w' ⟨p, run, ended⟩
  have two : Plain.mixedWorld.users.countP (HasOlderField Plain.threeKeys ·) = 2 := by
    decide +kernel
  rw [two] at count
  subst count
  exact ⟨h, w', ⟨p, run, ended⟩, visited, rotated⟩

end BajaValle
