import BajaValle.RotationRaces

/-!
# The reencrypt script beside deletions

The cursor of the script is the last row it has read. If that row is deleted
before the next page is read, the page is empty or lacks its first row, and the
script ends without an error although rows were passed over. A successful run
misses a row exactly if such a row is still there.
-/

namespace BajaValle

open CallPrograms Prog Interleaving EncryptionService Reencrypt

/-- The script is the program `none`, every other program deletes an account. -/
def purgePrograms (env : Env) (fuel : Nat) (accounts : Nat → Uuid) : Option Nat → Task Unit
  | none => (fun _ => ()) <$> Reencrypt.main env fuel
  | some i => UsersService.delete (accounts i)

def purge (env : Env) (fuel : Nat) (accounts : Nat → Uuid) (w : World) : Site :=
  start w (purgePrograms env fuel accounts)

namespace World

/-- The users in the order of pages. -/
def byId (w : World) : List User := w.users.insertionSort fun u v => u.id ≤ v.id

def afterCursor (w : World) (cursor : Option Uuid) : List User :=
  w.byId.filter fun u => cursor.all (· < u.id)

/-- The rows that a page passes over since the row of its cursor is gone. -/
def passedOver (w : World) (emptyPage : Bool) (cursor : Option Uuid) : List User :=
  if cursor.all fun id => w.users.any (·.id = id) then []
  else if emptyPage then w.afterCursor cursor
  else (w.afterCursor cursor).take 1

end World

/-- Between the two states the script read a page that passed over this row. -/
def PassesOver (env : Env) (c₀ c : Site) (p : User) : Prop :=
  ∃ c₁ c₂ ch cursor page, Leads (exec env) c₀ c₁ ∧ fire (exec env) none ch c₁ = some c₂ ∧
    c₂.history = ⟨none, ch, ⟨.userFindMany cursor BATCH, .ok page⟩⟩ :: c₁.history ∧
    p ∈ c₁.world.passedOver ch.emptyPage cursor ∧ Leads (exec env) c₂ c

section Pages
variable {w : World} {emptyPage : Bool} {cursor : Option Uuid} {take : Nat} {u v p : User}

lemma mem_byId : u ∈ w.byId ↔ u ∈ w.users := List.mem_insertionSort _

lemma byId_sorted (unique : (w.users.map User.id).Nodup) :
    w.byId.Pairwise fun u v => u.id < v.id := by
  refine List.pairwise_map.mp (?_ : (w.byId.map User.id).Pairwise (· < ·))
  rw [World.byId, map_id_insertionSort]
  exact sortedIds_pairwise unique

/-- The rows from the cursor on, if its row is gone. -/
lemma from_cursor {id : Uuid} (gone : ∀ u ∈ w.users, u.id ≠ id) :
    (w.byId.filter fun u => id ≤ u.id) = w.afterCursor (some id) := by
  refine List.filter_congr fun u hu => ?_
  have other := gone u (mem_byId.mp hu)
  simp only [Option.all_some, decide_eq_decide]
  exact ⟨fun le => Nat.lt_of_le_of_ne le (Ne.symm other), Nat.le_of_lt⟩

/-- The rows from the cursor on, if its row is there. -/
lemma from_cursor_row (unique : (w.users.map User.id).Nodup) (hv : v ∈ w.users) :
    (w.byId.filter fun u => v.id ≤ u.id) = v :: w.afterCursor (some v.id) := by
  have sorted := byId_sorted unique
  unfold World.afterCursor
  obtain ⟨before, after, split⟩ := List.append_of_mem (mem_byId.mpr hv)
  rw [split] at sorted ⊢
  obtain ⟨_, tail, below⟩ := List.pairwise_append.mp sorted
  obtain ⟨above, _⟩ := List.pairwise_cons.mp tail
  have low : (before.filter fun u => decide (v.id ≤ u.id)) = [] :=
    List.filter_eq_nil_iff.mpr fun u hu => by simpa using below u hu v List.mem_cons_self
  have low' : (before.filter fun u => decide (v.id < u.id)) = [] :=
    List.filter_eq_nil_iff.mpr fun u hu => by
      simpa using Nat.le_of_lt (below u hu v List.mem_cons_self)
  have high : (after.filter fun u => decide (v.id ≤ u.id)) = after :=
    List.filter_eq_self.mpr fun u hu => by simpa using Nat.le_of_lt (above u hu)
  have high' : (after.filter fun u => decide (v.id < u.id)) = after :=
    List.filter_eq_self.mpr fun u hu => by simpa using above u hu
  simp [List.filter_append, low, low', high, high']

/-- A page takes the first rows after the cursor that are not passed over. -/
lemma userPage_eq (unique : (w.users.map User.id).Nodup) (emptyPage : Bool)
    (cursor : Option Uuid) (take : Nat) :
    ∃ rest, w.afterCursor cursor = w.passedOver emptyPage cursor ++ rest ∧
      w.userPage emptyPage cursor take = rest.take take := by
  unfold World.userPage World.passedOver
  rw [← World.byId]
  cases cursor with
  | none => exact ⟨w.byId, by simp [World.afterCursor], rfl⟩
  | some id =>
    by_cases gone : ∀ u ∈ w.users, u.id ≠ id
    · have absent : w.byId.any (·.id = id) = false := by simpa [mem_byId] using gone
      have absent' : w.users.any (·.id = id) = false := by simpa using gone
      simp only [absent, absent', Option.all_some, from_cursor gone, Bool.not_false, Bool.and_true,
        Bool.false_eq_true, if_false]
      cases emptyPage with
      | true => exact ⟨[], by simp, by simp⟩
      | false => exact ⟨(w.afterCursor (some id)).drop 1, (List.take_append_drop 1 _).symm, rfl⟩
    · obtain ⟨v, hv, rfl⟩ : ∃ v ∈ w.users, v.id = id := by simpa using gone
      have stored : w.byId.any (·.id = v.id) = true :=
        List.any_eq_true.mpr ⟨v, mem_byId.mpr hv, decide_eq_true rfl⟩
      have stored' : w.users.any (·.id = v.id) = true :=
        List.any_eq_true.mpr ⟨v, hv, decide_eq_true rfl⟩
      refine ⟨w.afterCursor (some v.id), ?_, ?_⟩
      · simp only [stored', Option.all_some, if_true, List.nil_append]
      · simp only [stored, Bool.not_true, Bool.and_false, Bool.false_eq_true, if_false,
          from_cursor_row unique hv, List.drop_succ_cons, List.drop_zero]

lemma mem_afterCursor : u ∈ w.afterCursor cursor ↔ u ∈ w.users ∧
    ∀ id, cursor = some id → id < u.id := by
  cases cursor <;> simp [World.afterCursor, mem_byId]

lemma afterCursor_sorted (cursor : Option Uuid) (unique : (w.users.map User.id).Nodup) :
    (w.afterCursor cursor).Pairwise fun u v => u.id < v.id :=
  (byId_sorted unique).filter _

lemma passedOver_after (hp : p ∈ w.passedOver emptyPage cursor) : p ∈ w.afterCursor cursor := by
  unfold World.passedOver at hp
  split_ifs at hp
  · cases hp
  · exact hp
  · exact List.mem_of_mem_take hp

/-- What a page says of a row after the cursor. -/
lemma page_covers (unique : (w.users.map User.id).Nodup) (emptyPage : Bool)
    (hu : u ∈ w.afterCursor cursor)
    (take : Nat) : u ∈ w.passedOver emptyPage cursor ∨ u ∈ w.userPage emptyPage cursor take ∨
      (w.userPage emptyPage cursor take).length = take ∧
        ∀ v ∈ w.userPage emptyPage cursor take, v.id < u.id := by
  obtain ⟨rest, split, page⟩ := userPage_eq unique emptyPage cursor take
  have sorted := afterCursor_sorted cursor unique
  rw [split] at hu sorted
  rw [page]
  rcases List.mem_append.mp hu with passed | later
  · exact .inl passed
  rw [← List.take_append_drop take rest] at later
  rcases List.mem_append.mp later with shown | beyond
  · exact .inr (.inl shown)
  · refine .inr (.inr ⟨?_, ?_⟩)
    · have long := List.length_pos_of_mem beyond
      simp only [List.length_drop] at long
      simp only [List.length_take]
      omega
    · have order := (List.pairwise_append.mp sorted).2.1
      rw [← List.take_append_drop take rest] at order
      exact fun v hv => (List.pairwise_append.mp order).2.2 v hv u beyond

lemma page_after (unique : (w.users.map User.id).Nodup)
    (hu : u ∈ w.userPage emptyPage cursor take) : u ∈ w.afterCursor cursor := by
  obtain ⟨rest, split, page⟩ := userPage_eq unique emptyPage cursor take
  rw [split]
  exact List.mem_append_right _ (List.mem_of_mem_take (page ▸ hu))

lemma passed_before (unique : (w.users.map User.id).Nodup)
    (hp : p ∈ w.passedOver emptyPage cursor) (hu : u ∈ w.userPage emptyPage cursor take) :
    p.id < u.id := by
  obtain ⟨rest, split, page⟩ := userPage_eq unique emptyPage cursor take
  have sorted := afterCursor_sorted cursor unique
  rw [split] at sorted
  exact (List.pairwise_append.mp sorted).2.2 p hp u (List.mem_of_mem_take (page ▸ hu))

/-- The last row of a page is its greatest. -/
lemma page_last (unique : (w.users.map User.id).Nodup)
    (hu : u ∈ w.userPage emptyPage cursor take)
    (last : (w.userPage emptyPage cursor take).getLast? = some v) : u.id ≤ v.id := by
  obtain ⟨rest, split, page⟩ := userPage_eq unique emptyPage cursor take
  have sorted := afterCursor_sorted cursor unique
  rw [split] at sorted
  rw [page] at hu last
  have order := (List.pairwise_append.mp sorted).2.1.sublist (List.take_sublist take rest)
  obtain ⟨earlier, whole⟩ := List.getLast?_eq_some_iff.mp last
  rw [whole] at hu order
  rcases List.mem_append.mp hu with early | same
  · exact Nat.le_of_lt ((List.pairwise_append.mp order).2.2 u early v (List.mem_singleton_self _))
  · rw [List.mem_singleton.mp same]

end Pages

section Runs
variable {env : Env} {fuel : Nat} {accounts : Nat → Uuid} {w w' : World} {c c' : Site}
  {h : List OwnCall} {t : List User} {u v : User}

def purgeMay (env : Env) : Option Nat → List OwnCall → Op → Prop
  | none => SweepMay env
  | some _ => fun _ op => ∃ id, op = .userDelete id

def purgeEnds (env : Env) : Option Nat → List OwnCall → Unit → Prop
  | none => fun h _ => Exhausted h ∧ ∀ u ∈ seen h, Reencrypt.Settled env h u
  | some _ => fun _ _ => True

lemma purge_obeys : PoolObeys (purgeMay env) (purgeEnds env) (purge env fuel accounts w) := by
  intro i
  cases i with
  | none => exact obeys_bind (main_sweeps fuel) fun _ _ ends => ends
  | some i => exact ⟨⟨_, rfl⟩, fun r => by cases r <;> trivial⟩

/-- What the script knows of the rows. -/
structure Sweeping (env : Env) (t : List User) (w : World) (h : List OwnCall) : Prop where
  unique : (w.users.map User.id).Nodup
  rows : ∀ u ∈ w.users, u ∈ t ∨ ¬ HasOlderField env u
  read : ∀ u ∈ seen h, u ∈ t ∨ ¬ HasOlderField env u
  updated : ∀ u ∈ w.users, ∀ data r, (⟨.userUpdate u.id data, .ok r⟩ : OwnCall) ∈ h →
    ¬ HasOlderField env u
  newest : ∀ v ∈ seen h, ¬ HasOlderField env v → ∀ u ∈ w.users, u.id = v.id →
    ¬ HasOlderField env u
  ascending : ∀ v ∈ seen h, ∀ id, lastSeen h = some id → v.id ≤ id

/-- The rows after a move are those before it, some deleted, or one renewed that
the script has read. -/
def Evolves (env : Env) (h : List OwnCall) (w w' : World) : Prop :=
  (w'.users.map User.id).Sublist (w.users.map User.id) ∧
    ∀ u' ∈ w'.users, ∃ u ∈ w.users, u.id = u'.id ∧
      (u' = u ∨ (¬ HasOlderField env u' ∧ ∃ v ∈ seen h, v.id = u'.id))

lemma newest_iff : ¬ HasOlderField env u ↔ versionOf u.emailEnc = currentVersion env ∧
    versionOf u.firstNameEnc = currentVersion env ∧
    versionOf u.lastNameEnc = currentVersion env := by
  simp [HasOlderField, User.encrypted]

lemma Evolves.refl {w w' : World} (users : w'.users = w.users) : Evolves env h w w' := by
  rw [Evolves, users]
  exact ⟨List.Sublist.refl _, fun u' hu' => ⟨u', hu', rfl, .inl rfl⟩⟩

lemma Sweeping.evolve (sweeping : Sweeping env t w h) (evolves : Evolves env h w w') :
    Sweeping env t w' h := by
  obtain ⟨ids, each⟩ := evolves
  have stays : ∀ u' ∈ w'.users, (∀ u ∈ w.users, u.id = u'.id → ¬ HasOlderField env u) →
      ¬ HasOlderField env u' := by
    intro u' hu' newest
    obtain ⟨u, hu, same, rfl | ⟨renewed, _⟩⟩ := each u' hu'
    · exact newest u' hu rfl
    · exact renewed
  refine ⟨sweeping.unique.sublist ids, fun u' hu' => ?_, sweeping.read, ?_, ?_, sweeping.ascending⟩
  · obtain ⟨u, hu, same, rfl | ⟨renewed, _⟩⟩ := each u' hu'
    · exact sweeping.rows u' hu
    · exact .inr renewed
  · exact fun u' hu' data r call => stays u' hu' fun u hu same =>
      sweeping.updated u hu data r (same ▸ call)
  · exact fun v hv newest u' hu' same => stays u' hu' fun u hu id =>
      sweeping.newest v hv newest u hu (id.trans same)

/-- A call that reads no page and updates no row. -/
lemma Sweeping.silent (sweeping : Sweeping env t w h) {k : OwnCall} (noPage : pageRows k = [])
    (leaves : LeavesUsers k) : Sweeping env t w (k :: h) := by
  have rows : seen (k :: h) = seen h := by rw [seen_cons, noPage, List.append_nil]
  refine ⟨sweeping.unique, sweeping.rows, rows ▸ sweeping.read, ?_, rows ▸ sweeping.newest, ?_⟩
  · intro u hu data r call
    rcases List.mem_cons.mp call with same | old
    · rw [← same] at leaves
      exact leaves.elim
    · exact sweeping.updated u hu data r old
  · rw [lastSeen, rows]
    exact sweeping.ascending

/-- An update that was made. -/
lemma Sweeping.record (sweeping : Sweeping env t w h) {id : Uuid} {data : UserChanges} {r : User}
    (renewed : ∀ u ∈ w.users, u.id = id → ¬ HasOlderField env u) :
    Sweeping env t w (⟨.userUpdate id data, .ok r⟩ :: h) := by
  have rows : seen (⟨.userUpdate id data, .ok r⟩ :: h) = seen h := by
    rw [seen_cons]
    exact List.append_nil _
  refine ⟨sweeping.unique, sweeping.rows, rows ▸ sweeping.read, ?_, rows ▸ sweeping.newest, ?_⟩
  · intro u hu data' r' call
    rcases List.mem_cons.mp call with same | old
    · obtain ⟨op, _⟩ := Call.mk.inj same
      obtain ⟨here, _⟩ := Op.userUpdate.inj op
      exact renewed u hu here
    · exact sweeping.updated u hu data' r' old
  · rw [lastSeen, rows]
    exact sweeping.ascending

lemma Sweeping.below (sweeping : Sweeping env t w h) (hv : v ∈ seen h)
    (above : ∀ id, lastSeen h = some id → id < u.id) : v.id < u.id := by
  cases last : lastSeen h with
  | none =>
    rw [lastSeen, Option.map_eq_none_iff, List.getLast?_eq_none_iff] at last
    simp [last] at hv
  | some id => exact Nat.lt_of_le_of_lt (sweeping.ascending v hv id last) (above id last)

/-- The read of a page. -/
lemma Sweeping.page (sweeping : Sweeping env t w h) (emptyPage : Bool) (take : Nat) :
    Sweeping env t w (⟨.userFindMany (lastSeen h) take,
      .ok (w.userPage emptyPage (lastSeen h) take)⟩ :: h) := by
  have rows := seen_page (lastSeen h) take (w.userPage emptyPage (lastSeen h) take) h
  have stored : ∀ u ∈ w.userPage emptyPage (lastSeen h) take, u ∈ w.users ∧
      ∀ id, lastSeen h = some id → id < u.id := fun u hu =>
    mem_afterCursor.mp (page_after sweeping.unique hu)
  refine ⟨sweeping.unique, sweeping.rows, fun u hu => ?_, ?_, fun v hv newest u hu same => ?_,
    fun v hv id last => ?_⟩
  · rcases List.mem_append.mp (rows ▸ hu) with old | new
    · exact sweeping.read u old
    · exact sweeping.rows u (stored u new).1
  · intro u hu data r call
    rcases List.mem_cons.mp call with same | old
    · cases same
    · exact sweeping.updated u hu data r old
  · rcases List.mem_append.mp (rows ▸ hv) with old | new
    · exact sweeping.newest v old newest u hu same
    · rwa [List.inj_on_of_nodup_map sweeping.unique hu (stored v new).1 same]
  · rw [rows] at hv
    rw [lastSeen_page] at last
    cases final : (w.userPage emptyPage (lastSeen h) take).getLast? with
    | none =>
      rw [List.getLast?_eq_none_iff.mp final, List.append_nil] at hv
      rw [final, Option.map_none, Option.none_or] at last
      exact sweeping.ascending v hv id last
    | some z =>
      rw [final, Option.map_some, Option.some_or] at last
      obtain rfl := Option.some.inj last
      rcases List.mem_append.mp hv with old | new
      · exact Nat.le_of_lt (sweeping.below old (stored z (List.mem_of_getLast? final)).2)
      · exact page_last sweeping.unique new final

lemma purge_drawn (reach : Leads (exec env) (purge env fuel accounts w) c) (iv : Bytes)
    (call : (⟨.randomBytes IV_BYTES, iv⟩ : OwnCall) ∈ own none c.history) : iv.length = IV_BYTES :=
  randomBytes_length reach call

variable (reads : ∀ version, currentVersion env = some version → ReadsBack version)
include reads

/-- A column after an update that writes it if it was older. -/
lemma renewed_column (drawn : ∀ iv, (⟨.randomBytes IV_BYTES, iv⟩ : OwnCall) ∈ h →
      iv.length = IV_BYTES) {context old stored : String} {new : Option String}
    (recrypted : Recrypted env h context old new)
    (older : new = none ↔ versionOf old = currentVersion env)
    (same : stored = old ∨ versionOf stored = currentVersion env) :
    versionOf (new.getD stored) = currentVersion env := by
  cases new with
  | none =>
    rcases same with rfl | newest
    · exact older.mp rfl
    · exact newest
  | some value =>
    obtain ⟨text, iv, _, call, encrypted⟩ := recrypted
    exact versionOf_encrypt reads (drawn iv call) encrypted

lemma renewed_row (drawn : ∀ iv, (⟨.randomBytes IV_BYTES, iv⟩ : OwnCall) ∈ h →
      iv.length = IV_BYTES) {data : UserChanges} (rewrites : Rewrites env h u data)
    (older : WritesOlder env u data) (same : v = u ∨ ¬ HasOlderField env v) (now : Nat) :
    ¬ HasOlderField env (data.apply now v) := by
  obtain ⟨email, firstName, lastName, rfl, hemail, hfirst, hlast⟩ := rewrites
  obtain ⟨older₁, older₂, older₃⟩ := older
  have columns : (v.emailEnc = u.emailEnc ∨ versionOf v.emailEnc = currentVersion env) ∧
      (v.firstNameEnc = u.firstNameEnc ∨ versionOf v.firstNameEnc = currentVersion env) ∧
      (v.lastNameEnc = u.lastNameEnc ∨ versionOf v.lastNameEnc = currentVersion env) := by
    rcases same with rfl | newest
    · exact ⟨.inl rfl, .inl rfl, .inl rfl⟩
    · obtain ⟨first, second, third⟩ := newest_iff.mp newest
      exact ⟨.inr first, .inr second, .inr third⟩
  exact newest_iff.mpr ⟨renewed_column reads drawn hemail older₁ columns.1,
    renewed_column reads drawn hfirst older₂ columns.2.1,
    renewed_column reads drawn hlast older₃ columns.2.2⟩

/-- An update by the script. -/
lemma Sweeping.update (sweeping : Sweeping env t w h) (table : (t.map User.id).Nodup)
    (drawn : ∀ iv, (⟨.randomBytes IV_BYTES, iv⟩ : OwnCall) ∈ h → iv.length = IV_BYTES)
    {id : Uuid} {data : UserChanges} (sweeps : SweepMay env h (.userUpdate id data)) {ch : Choice}
    {r : Except PrismaError User} (answered : exec env ch (.userUpdate id data) w = some (r, w')) :
    Evolves env h w w' ∧
      ((∃ u, r = .ok u) → ∀ u' ∈ w'.users, u'.id = id → ¬ HasOlderField env u') := by
  obtain ⟨u, hu, rfl, something, rewrites, older⟩ := sweeps
  have outdated : HasOlderField env u := by
    by_contra newest
    obtain ⟨email, firstName, lastName, rfl, _⟩ := rewrites
    obtain ⟨first, second, third⟩ := newest_iff.mp newest
    obtain rfl := older.1.mpr first
    obtain rfl := older.2.1.mpr second
    obtain rfl := older.2.2.mpr third
    exact something rfl
  cases exec_userUpdate answered with
  | failed _ users => exact ⟨.refl users, nofun⟩
  | missing _ _ users => exact ⟨.refl users, nofun⟩
  | taken _ _ _ _ _ _ users => exact ⟨.refl users, nofun⟩
  | updated _ _ _ _ rows =>
    have renewed : ∀ v ∈ w.users, v.id = u.id → ¬ HasOlderField env (data.apply ch.now v) := by
      intro v hv same
      refine renewed_row reads drawn rewrites older ?_ _
      rcases sweeping.rows v hv with old | newest
      · rcases sweeping.read u hu with first | never
        · exact .inl (List.inj_on_of_nodup_map table old first same)
        · exact absurd outdated never
      · exact .inr newest
    have after : ∀ u' ∈ w'.users, ∃ v ∈ w.users, v.id = u'.id ∧
        (u' = v ∨ (¬ HasOlderField env u' ∧ ∃ z ∈ seen h, z.id = u'.id)) ∧
        (u'.id = u.id → ¬ HasOlderField env u') := by
      intro u' hu'
      rw [rows] at hu'
      obtain ⟨v, hv, rfl⟩ := List.mem_map.mp hu'
      refine ⟨v, hv, ?_⟩
      split
      · rename_i same
        exact ⟨rfl, .inr ⟨renewed v hv same, u, hu, same.symm⟩, fun _ => renewed v hv same⟩
      · rename_i other
        exact ⟨rfl, .inl rfl, fun same => absurd same other⟩
    refine ⟨⟨?_, fun u' hu' => ?_⟩, fun _ u' hu' same => ?_⟩
    · have ids : w'.users.map User.id = w.users.map User.id := by
        rw [rows, List.map_map]
        refine List.map_congr_left fun v _ => ?_
        simp only [Function.comp]
        split <;> rfl
      rw [ids]
    · obtain ⟨v, hv, id, kept, _⟩ := after u' hu'
      exact ⟨v, hv, id, kept⟩
    · obtain ⟨_, _, _, _, done⟩ := after u' hu'
      exact done same

/-- The state of a purge after a move. -/
lemma sweeping_step (table : (w.users.map User.id).Nodup)
    (reach : Leads (exec env) (purge env fuel accounts w) c)
    (sweeping : Sweeping env w.users c.world (own none c.history)) {i : Option Nat} {ch : Choice}
    (fired : fire (exec env) i ch c = some c') :
    Sweeping env w.users c'.world (own none c'.history) ∧
      Evolves env (own none c.history) c.world c'.world := by
  have may := leads_poolObeys reach purge_obeys i
  obtain ⟨op, next, r, w', head, answered, rfl⟩ := fire_eq_some.mp fired
  rw [head] at may
  cases i with
  | some i =>
    obtain ⟨id, rfl⟩ := may.1
    have evolves : Evolves env (own none c.history) c.world w' := by
      cases exec_userDelete answered with
      | failed _ users => exact .refl users
      | missing _ users => exact .refl users
      | deleted u _ users =>
        refine ⟨users ▸ List.filter_sublist.map _, fun u' hu' => ?_⟩
        rw [users] at hu'
        exact ⟨u', (List.mem_filter.mp hu').1, rfl, .inl rfl⟩
    rw [own_cons_other (by simp)]
    exact ⟨sweeping.evolve evolves, evolves⟩
  | none =>
    rw [own_cons_self]
    cases op with
    | randomBytes n =>
      obtain ⟨_, users⟩ := exec_readOnly answered trivial
      have evolves : Evolves env (own none c.history) c.world w' := .refl users
      exact ⟨(sweeping.evolve evolves).silent rfl trivial, evolves⟩
    | userFindMany cursor take =>
      obtain ⟨rfl, rfl, _, _⟩ := may.1
      obtain ⟨users, ⟨_, rfl⟩ | rfl⟩ := exec_userFindMany answered
      · have evolves : Evolves env (own none c.history) c.world w' := .refl users
        exact ⟨(sweeping.evolve evolves).silent rfl trivial, evolves⟩
      · have evolves : Evolves env (own none c.history) c.world w' := .refl users
        exact ⟨(sweeping.page ch.emptyPage BATCH).evolve (.refl users), evolves⟩
    | userUpdate id data =>
      obtain ⟨evolves, renewed⟩ := sweeping.update reads table (purge_drawn reach) may.1 answered
      refine ⟨?_, evolves⟩
      cases r with
      | error e => exact (sweeping.evolve evolves).silent rfl trivial
      | ok u => exact (sweeping.evolve evolves).record (renewed ⟨u, rfl⟩)
    | _ => exact may.1.elim

/-- The rows that the script has left behind are read or passed over. -/
def Accounted (env : Env) (c₀ c : Site) : Prop :=
  ∀ u ∈ c.world.users, Exhausted (own none c.history) ∨
      (∃ id, lastSeen (own none c.history) = some id ∧ u.id ≤ id) →
    (∃ v ∈ seen (own none c.history), v.id = u.id) ∨
      ∃ p, PassesOver env c₀ c p ∧ p.id = u.id ∧ (u = p ∨ ¬ HasOlderField env u)

omit reads in
lemma PassesOver.later {c₀ : Site} {p : User} (passes : PassesOver env c₀ c p)
    (run : Leads (exec env) c c') : PassesOver env c₀ c' p := by
  obtain ⟨c₁, c₂, ch, cursor, page, before, fired, history, passed, after⟩ := passes
  exact ⟨c₁, c₂, ch, cursor, page, before, fired, history, passed, leads_trans after run⟩

omit reads in
/-- A page that has been read. -/
lemma Accounted.page {c₀ : Site} (accounted : Accounted env c₀ c) (reach : Leads (exec env) c₀ c)
    (unique : (c.world.users.map User.id).Nodup) (going : ¬ Exhausted (own none c.history))
    {ch : Choice} (fired : fire (exec env) none ch c = some c')
    (users : c'.world.users = c.world.users)
    (read : c'.history = ⟨none, ch, ⟨.userFindMany (lastSeen (own none c.history)) BATCH,
      .ok (c.world.userPage ch.emptyPage (lastSeen (own none c.history)) BATCH)⟩⟩ :: c.history) :
    Accounted env c₀ c' := by
  intro u hu behind
  rw [users] at hu
  rw [read, own_cons_self] at behind ⊢
  rw [seen_page]
  by_cases after : u ∈ c.world.afterCursor (lastSeen (own none c.history))
  · rcases page_covers unique ch.emptyPage after BATCH with
      passed | shown | ⟨full, below⟩
    · refine .inr ⟨u, ⟨c, c', ch, _, _, reach, fired, read, passed, leads_refl _⟩, rfl, .inl rfl⟩
    · exact .inl ⟨u, List.mem_append_right _ shown, rfl⟩
    · exfalso
      rcases behind with exhausted | ⟨id, last, le⟩
      · rw [(exhausted_page.mp exhausted).resolve_right going] at full
        cases full
      · rw [lastSeen_page] at last
        cases final :
          (c.world.userPage ch.emptyPage (lastSeen (own none c.history)) BATCH).getLast? with
        | none =>
          rw [List.getLast?_eq_none_iff.mp final] at full
          cases full
        | some z =>
          rw [final, Option.map_some, Option.some_or] at last
          obtain rfl := Option.some.inj last
          exact absurd (below z (List.mem_of_getLast? final)) (Nat.not_lt.mpr le)
  · obtain ⟨id, cursor, before⟩ : ∃ id, lastSeen (own none c.history) = some id ∧ u.id ≤ id := by
      simpa [mem_afterCursor, hu] using after
    rcases accounted u hu (.inr ⟨id, cursor, before⟩) with ⟨v, hv, same⟩ | ⟨p, passes, same, kept⟩
    · exact .inl ⟨v, List.mem_append_left _ hv, same⟩
    · exact .inr ⟨p, passes.later (leads_of_fire fired), same, kept⟩

omit reads in
/-- Moves that leave the pages read as they were. -/
lemma Accounted.keep {c₀ : Site} (accounted : Accounted env c₀ c) (run : Leads (exec env) c c')
    (evolves : Evolves env (own none c.history) c.world c'.world)
    (rows : seen (own none c'.history) = seen (own none c.history))
    (exhausted : Exhausted (own none c'.history) → Exhausted (own none c.history)) :
    Accounted env c₀ c' := by
  intro u' hu' behind
  obtain ⟨u, hu, same, kept⟩ := evolves.2 u' hu'
  rw [lastSeen, rows] at behind
  have behind₀ : Exhausted (own none c.history) ∨
      ∃ id, lastSeen (own none c.history) = some id ∧ u.id ≤ id := by
    rw [same]
    exact behind.imp_left exhausted
  rcases accounted u hu behind₀ with
    ⟨v, hv, id⟩ | ⟨p, passes, id, still⟩
  · exact .inl ⟨v, rows ▸ hv, id.trans same⟩
  · refine .inr ⟨p, passes.later run, id.trans same, ?_⟩
    rcases kept with rfl | ⟨newest, _⟩
    · exact still
    · exact .inr newest

/-- Nothing is left behind unread or not passed over. -/
lemma accounted_step (table : (w.users.map User.id).Nodup)
    (reach : Leads (exec env) (purge env fuel accounts w) c)
    (sweeping : Sweeping env w.users c.world (own none c.history))
    (accounted : Accounted env (purge env fuel accounts w) c) {i : Option Nat} {ch : Choice}
    (fired : fire (exec env) i ch c = some c') : Accounted env (purge env fuel accounts w) c' := by
  obtain ⟨_, evolves⟩ := sweeping_step reads table reach sweeping fired
  have run := leads_of_fire fired
  have may := leads_poolObeys reach purge_obeys i
  obtain ⟨op, next, r, w', head, answered, made⟩ := fire_eq_some.mp fired
  rw [head] at may
  subst made
  cases i with
  | some i =>
    have same := own_cons_other (i := some i) (j := none) (by simp) ch ⟨op, r⟩ c.history
    exact accounted.keep run evolves (by rw [same]) (by rw [same]; exact fun x => x)
  | none =>
    have grown := own_cons_self (none : Option Nat) ch ⟨op, r⟩ c.history
    cases op with
    | randomBytes n =>
      exact accounted.keep run evolves (by rw [grown, seen_cons]; exact List.append_nil _)
        fun exhausted => (exhausted_other (by simp)).mp (grown ▸ exhausted)
    | userUpdate id data =>
      exact accounted.keep run evolves (by rw [grown, seen_cons]; exact List.append_nil _)
        fun exhausted => (exhausted_other (by simp)).mp (grown ▸ exhausted)
    | userFindMany cursor take =>
      obtain ⟨last, rfl, going, _⟩ := may.1
      obtain ⟨users, ⟨_, rfl⟩ | rfl⟩ := exec_userFindMany answered
      · exact accounted.keep run evolves (by rw [grown, seen_cons]; exact List.append_nil _)
          fun exhausted => (exhausted_other (by simp)).mp (grown ▸ exhausted)
      · subst last
        exact accounted.page reach sweeping.unique going fired users rfl
    | _ => exact may.1.elim

lemma purge_invariant (table : (w.users.map User.id).Nodup)
    (reach : Leads (exec env) (purge env fuel accounts w) c) :
    Sweeping env w.users c.world (own none c.history) ∧
      Accounted env (purge env fuel accounts w) c := by
  refine leads_induction (P := fun c => Sweeping env w.users c.world (own none c.history) ∧
    Accounted env (purge env fuel accounts w) c) reach ⟨?_, ?_⟩ ?_
  · exact ⟨table, fun u hu => .inl hu, by simp [purge, start, seen], by simp [purge, start],
      by simp [purge, start, seen], by simp [purge, start, seen]⟩
  · rintro u hu (⟨cursor, mem⟩ | ⟨id, last, _⟩)
    · cases mem
    · cases last
  · rintro x x' i ch reached ⟨sweeping, accounted⟩ fired
    exact ⟨(sweeping_step reads table reached sweeping fired).1,
      accounted_step reads table reached sweeping accounted fired⟩

omit reads in
lemma purge_finished (reach : Leads (exec env) (purge env fuel accounts w) c)
    (finished : (c.pool none).outcome = some (.ok ())) :
    Exhausted (own none c.history) ∧ ∀ u ∈ seen (own none c.history),
      Reencrypt.Settled env (own none c.history) u := by
  have ends := leads_poolObeys reach purge_obeys none
  rw [outcome_eq_ok.mp finished] at ends
  exact ends

/-- The row stays as it was passed over, since the script is past it. -/
structure Missed (p : User) (w : World) (h : List OwnCall) : Prop where
  row : ∀ u ∈ w.users, u.id = p.id → u = p
  unread : ∀ v ∈ seen h, v.id ≠ p.id
  past : Exhausted h ∨ ∃ id, lastSeen h = some id ∧ p.id < id

omit reads in
lemma Missed.row_later {p : User} (missed : Missed p w h) (evolves : Evolves env h w w') :
    ∀ u ∈ w'.users, u.id = p.id → u = p := by
  intro u' hu' same
  obtain ⟨u, hu, id, rfl | ⟨_, v, hv, read⟩⟩ := evolves.2 u' hu'
  · exact missed.row u' hu same
  · exact absurd (read.trans same) (missed.unread v hv)

omit reads in
/-- A page read when the script is past the row. -/
lemma Missed.page {p : User} (row : ∀ u ∈ w'.users, u.id = p.id → u = p)
    (unread : ∀ v ∈ seen h, v.id ≠ p.id) {page : List User} {cursor : Option Uuid}
    (above : ∀ u ∈ page, p.id < u.id) :
    Missed p w' (⟨.userFindMany cursor BATCH, .ok page⟩ :: h) := by
  refine ⟨row, fun v hv => ?_, ?_⟩
  · rw [seen_page] at hv
    rcases List.mem_append.mp hv with old | new
    · exact unread v old
    · exact Nat.ne_of_gt (above v new)
  · rw [exhausted_page, lastSeen_page]
    cases final : page.getLast? with
    | none => exact .inl (.inl (List.getLast?_eq_none_iff.mp final))
    | some z => exact .inr ⟨z.id, rfl, above z (List.mem_of_getLast? final)⟩

/-- A move keeps a row missed. -/
lemma missed_step {p : User} (table : (w.users.map User.id).Nodup)
    (reach : Leads (exec env) (purge env fuel accounts w) c)
    (missed : Missed p c.world (own none c.history)) {i : Option Nat} {ch : Choice}
    (fired : fire (exec env) i ch c = some c') : Missed p c'.world (own none c'.history) := by
  obtain ⟨sweeping, _⟩ := purge_invariant reads table reach
  obtain ⟨_, evolves⟩ := sweeping_step reads table reach sweeping fired
  have row := missed.row_later evolves
  have may := leads_poolObeys reach purge_obeys i
  obtain ⟨op, next, r, w', head, answered, made⟩ := fire_eq_some.mp fired
  rw [head] at may
  subst made
  cases i with
  | some i =>
    rw [own_cons_other (by simp)]
    exact ⟨row, missed.unread, missed.past⟩
  | none =>
    rw [own_cons_self]
    have keeps : ∀ k : OwnCall, pageRows k = [] →
        (∀ cursor page, k ≠ ⟨.userFindMany cursor BATCH, .ok page⟩) →
        Missed p w' (k :: own none c.history) := by
      intro k noPage other
      have rows : seen (k :: own none c.history) = seen (own none c.history) := by
        rw [seen_cons, noPage, List.append_nil]
      refine ⟨row, rows ▸ missed.unread, ?_⟩
      rw [exhausted_other other, lastSeen, rows]
      exact missed.past
    cases op with
    | randomBytes n => exact keeps _ rfl (by simp)
    | userUpdate id data => exact keeps _ rfl (by simp)
    | userFindMany cursor take =>
      obtain ⟨rfl, rfl, going, _⟩ := may.1
      obtain ⟨users, ⟨_, rfl⟩ | rfl⟩ := exec_userFindMany answered
      · exact keeps _ rfl (by simp)
      · obtain ⟨id, last, below⟩ := missed.past.resolve_left going
        refine Missed.page row missed.unread fun u hu => ?_
        exact Nat.lt_trans below ((mem_afterCursor.mp (page_after sweeping.unique hu)).2 id last)
    | _ => exact may.1.elim

/-- A row that was passed over is missed from then on. -/
lemma PassesOver.missed {p : User} (table : (w.users.map User.id).Nodup)
    (passes : PassesOver env (purge env fuel accounts w) c p) :
    Missed p c.world (own none c.history) := by
  obtain ⟨c₁, c₂, ch, cursor, page, before, fired, history, passed, after⟩ := passes
  obtain ⟨sweeping, _⟩ := purge_invariant reads table before
  have first : Missed p c₂.world (own none c₂.history) := by
    have may := leads_poolObeys before purge_obeys none
    obtain ⟨op, next, r, w', head, answered, rfl⟩ := fire_eq_some.mp fired
    rw [head] at may
    obtain ⟨rfl, found⟩ := Call.mk.inj (congrArg Event.call (List.cons.inj history).1)
    obtain rfl := eq_of_heq found
    obtain ⟨rfl, _, _, _⟩ := may.1
    obtain ⟨users, ⟨_, failed⟩ | shown⟩ := exec_userFindMany answered
    · cases failed
    obtain rfl := Except.ok.inj shown
    obtain ⟨stored, above⟩ := mem_afterCursor.mp (passedOver_after passed)
    rw [own_cons_self]
    refine Missed.page (fun u hu same => ?_) (fun v hv same => ?_) fun u hu =>
      passed_before sweeping.unique passed hu
    · exact List.inj_on_of_nodup_map sweeping.unique (users ▸ hu) stored same
    · exact absurd same (Nat.ne_of_lt (sweeping.below hv above))
  refine leads_induction (P := fun x => Missed p x.world (own none x.history)) after first ?_
  intro x x' i ch' reached missed fired'
  exact missed_step reads table (leads_trans (leads_trans before (leads_of_fire fired)) reached)
    missed fired'

end Runs

/-- A successful run beside deletions makes dropping the old keys safe exactly
if every older row that it passed over is itself gone in the end. -/
theorem rotation_covers_unless_cursor_deleted (env : Env)
    (reads : ∀ version, currentVersion env = some version → ReadsBack version) (fuel : Nat)
    (accounts : Nat → Uuid) (w : World) (table : (w.users.map User.id).Nodup) (c : Site)
    (reach : Leads (exec env) (purge env fuel accounts w) c)
    (finished : (c.pool none).outcome = some (.ok ())) :
    (∀ u ∈ w.users, ∀ u' ∈ c.world.users, u'.id = u.id → ¬ HasOlderField env u') ↔
      ∀ p, PassesOver env (purge env fuel accounts w) c p → HasOlderField env p →
        ∀ u ∈ c.world.users, u.id ≠ p.id := by
  obtain ⟨sweeping, accounted⟩ := purge_invariant reads table reach
  obtain ⟨exhausted, settled⟩ := purge_finished reach finished
  constructor
  · intro safe p passes older u hu same
    obtain rfl := (passes.missed reads table).row u hu same
    exact safe u ((sweeping.rows u hu).resolve_right (not_not.mpr older)) u hu rfl older
  · intro gone _ _ u hu _ older
    rcases accounted u hu (.inl exhausted) with ⟨v, hv, same⟩ | ⟨p, passes, same, rfl | newest⟩
    · rcases settled v hv with newest | ⟨data, r, updated⟩
      · exact sweeping.newest v hv newest u hu same.symm older
      · exact sweeping.updated u hu data r (same ▸ updated) older
    · exact gone u passes older u hu rfl
    · exact newest older

namespace Plain

lemma readsBack : ∀ version, currentVersion threeKeys = some version → ReadsBack version := by
  intro version current
  obtain rfl : JsNumber.finite 3 = version := Option.some.inj current
  exact SafeVersion.readsBack ⟨3, rfl, by decide, by decide⟩

/-- The accounts that are deleted: the last of the page and the first. -/
def closing (i : Nat) : Uuid := if i = 0 then 9 else 1

/-- The first account is deleted once it is rotated, the last before the next page
is read. -/
def closingRun : List (Option Nat × Choice) :=
  [(none, { now := 1 }), iv none 2, iv none 3, iv none 4, (none, { now := 5 }),
    (some 1, { now := 6 }), iv none 7, iv none 8, iv none 9, (none, { now := 10 }),
    (some 0, { now := 11 }), (none, { now := 12, emptyPage := true })]

end Plain

theorem rotation_covers_unless_cursor_deleted_closing :
    ∃ c, Leads (exec Plain.threeKeys) (purge Plain.threeKeys 2 Plain.closing Plain.mixedWorld) c ∧
      (c.pool none).outcome = some (.ok ()) ∧ c.world.users.map User.id = [5] ∧
      (∀ u ∈ Plain.mixedWorld.users, ∀ u' ∈ c.world.users, u'.id = u.id →
        ¬ HasOlderField Plain.threeKeys u') ∧
      ∀ p, PassesOver Plain.threeKeys (purge Plain.threeKeys 2 Plain.closing Plain.mixedWorld) c p →
        HasOlderField Plain.threeKeys p → ∀ u ∈ c.world.users, u.id ≠ p.id := by
  have shown : ∃ c, Leads (exec Plain.threeKeys)
      (purge Plain.threeKeys 2 Plain.closing Plain.mixedWorld) c ∧
      decide ((c.pool none).outcome = some (.ok ()) ∧ c.world.users.map User.id = [5] ∧
        ∀ u ∈ c.world.users, ¬ HasOlderField Plain.threeKeys u) = true :=
    leads_of_play Plain.closingRun (by decide +kernel)
  obtain ⟨c, reach, shown⟩ := shown
  obtain ⟨finished, left, newest⟩ := of_decide_eq_true shown
  have rotated : ∀ u ∈ Plain.mixedWorld.users, ∀ u' ∈ c.world.users, u'.id = u.id →
      ¬ HasOlderField Plain.threeKeys u' := fun _ _ u' hu' _ => newest u' hu'
  exact ⟨c, reach, finished, left, rotated, (rotation_covers_unless_cursor_deleted Plain.threeKeys
    Plain.readsBack 2 Plain.closing Plain.mixedWorld (by decide) c reach finished).mp rotated⟩

section Turns
variable {env : Env} {fuel updated : Nat} {cursor : Option Uuid} {u last : User} {page : List User}

/-- A row without older fields is left alone. -/
lemma visit_newest (held : currentVersion env ≠ none) (newest : ¬ HasOlderField env u) :
    visit env updated u = .ret updated := by
  have parsed : ∀ value, versionOf value = currentVersion env →
      needsReencryption env value = .ok false := by
    intro value version
    unfold versionOf at version
    unfold needsReencryption
    cases found : parse value with
    | none => exact absurd (by simpa [found] using version.symm) held
    | some parts => simpa [found] using version
  obtain ⟨email, firstName, lastName⟩ := newest_iff.mp newest
  have idle : reencryptRow env u = .ret {} := by
    simp only [reencryptRow, USER_FIELDS, List.foldlM_cons, List.foldlM_nil, reencryptField,
      UserField.of, parsed _ email, parsed _ firstName, parsed _ lastName]
    rfl
  rw [visit, idle]
  rfl

lemma visits_newest (held : currentVersion env ≠ none)
    (newest : ∀ u ∈ page, ¬ HasOlderField env u) :
    page.foldlM (visit env) updated = .ret updated := by
  induction page with
  | nil => rfl
  | cons u page ih =>
    rw [List.foldlM_cons, visit_newest held (newest u List.mem_cons_self)]
    exact ih fun v hv => newest v (List.mem_cons_of_mem _ hv)

/-- What the script does with a page. -/
def turn (env : Env) (fuel updated : Nat) : Except PrismaError (List User) → Task Nat
  | .error e => .throw (.prisma e)
  | .ok users => match users.getLast? with
    | none => return updated
    | some last => do
      let updated ← users.foldlM (visit env) updated
      loop env fuel (some last.id) updated

lemma loop_turn : loop env (fuel + 1) cursor updated =
    .call (.userFindMany cursor BATCH) (turn env fuel updated) :=
  congrArg (Prog.call (Op.userFindMany cursor BATCH)) (funext fun r => by cases r <;> rfl)

end Turns

namespace Plain

/-- A page of rotated rows and then one that is not. -/
def numbered (id : Uuid) : User :=
  let version := if id ≤ BATCH then 2 else 1
  let email := toString id ++ "@valle.mx"
  let field := payload gcm (.finite version) [UInt8.ofNat version] (List.replicate IV_BYTES 0)
  { user with
    id, emailHash := UsersService.emailHash rotatedEnv email
    emailEnc := field email UsersService.FIELD.email
    firstNameEnc := field "Ana" UsersService.FIELD.firstName
    lastNameEnc := field "Ruiz" UsersService.FIELD.lastName }

def longTable : World := { world with users := (List.range' 1 (BATCH + 1)).map numbered }

lemma numbered_newest {id : Uuid} (paged : id ≤ BATCH) :
    ¬ HasOlderField rotatedEnv (numbered id) := by
  have version : ∀ text context, versionOf (payload gcm (.finite 2) [2] (List.replicate IV_BYTES 0)
      text context) = currentVersion rotatedEnv := by
    intro text context
    have two : ReadsBack (.finite 2) := SafeVersion.readsBack ⟨2, rfl, by decide, by decide⟩
    rw [versionOf, parse_payload gcm two (List.length_replicate ..)]
    rfl
  refine newest_iff.mpr ?_
  simp only [numbered, if_pos paged]
  exact ⟨version _ _, version _ _, version _ _⟩

lemma longTable_ids : longTable.users.map User.id = List.range' 1 (BATCH + 1) := by
  rw [longTable, List.map_map]
  exact List.map_id _

lemma longTable_byId : longTable.byId = longTable.users := by
  refine List.Pairwise.insertionSort_eq (List.pairwise_map.mp ?_)
  rw [longTable_ids]
  exact List.pairwise_le_range'

/-- The first page holds the rotated rows. -/
lemma longTable_page :
    longTable.userPage false none BATCH = (List.range' 1 BATCH).map numbered := by
  have rows : longTable.userPage false none BATCH = longTable.byId.take BATCH := rfl
  rw [rows, longTable_byId, longTable, ← List.map_take]
  rfl

/-- After the first page the script asks for the rows after it. -/
lemma longTable_turn : turn rotatedEnv 1 0 (.ok (longTable.userPage false none BATCH)) =
    .call (.userFindMany (some BATCH) BATCH) (turn rotatedEnv 0 0) := by
  have last : ((List.range' 1 BATCH).map numbered).getLast? = some (numbered BATCH) := by
    rw [List.getLast?_map]
    rfl
  have newest : ∀ u ∈ (List.range' 1 BATCH).map numbered, ¬ HasOlderField rotatedEnv u := by
    intro u hu
    obtain ⟨id, mem, rfl⟩ := List.mem_map.mp hu
    have high := (List.mem_range'_1.mp mem).2
    exact numbered_newest (Nat.le_of_lt_add_one (Nat.add_comm 1 BATCH ▸ high))
  have held : currentVersion rotatedEnv ≠ none := Option.some_ne_none _
  simp only [longTable_page, turn, last, visits_newest held newest]
  exact loop_turn

lemma mem_longTable {id : Uuid} (low : 1 ≤ id) (high : id ≤ BATCH + 1) :
    numbered id ∈ longTable.users := by
  refine List.mem_map_of_mem (List.mem_range'_1.mpr ⟨low, ?_⟩)
  exact Nat.lt_of_le_of_lt high (by omega)

/-- The row after the first page. -/
def lastRow : User := numbered (BATCH + 1)

end Plain

/-- The last row of the first page is deleted before the next page is read. -/
theorem row_after_deleted_cursor_kept :
    (Plain.longTable.users.map User.id).Nodup ∧
    ∃ c, Leads (exec Plain.rotatedEnv)
        (purge Plain.rotatedEnv 2 (fun _ => BATCH) Plain.longTable) c ∧
      (c.pool none).outcome = some (.ok ()) ∧ Plain.lastRow ∈ Plain.longTable.users ∧
      Plain.lastRow ∈ c.world.users ∧ HasOlderField Plain.rotatedEnv Plain.lastRow := by
  refine ⟨Plain.longTable_ids ▸ List.nodup_range' .., ?_⟩
  have head₀ : (purge Plain.rotatedEnv 2 (fun _ => BATCH) Plain.longTable).pool none =
      .call (.userFindMany none BATCH) fun r => (fun _ => ()) <$> turn Plain.rotatedEnv 1 0 r := by
    show (fun _ => ()) <$> loop Plain.rotatedEnv 2 none 0 = _
    rw [loop_turn]
    rfl
  have read : exec Plain.rotatedEnv { now := 1 } (.userFindMany none BATCH) Plain.longTable =
      some (.ok (Plain.longTable.userPage false none BATCH), { Plain.longTable with clock := 1 }) :=
        rfl
  obtain ⟨c₁, first, world₁, script₁, others₁⟩ := leads_call head₀ read
  obtain ⟨r, w₂, deletes⟩ : ∃ r w₂, exec Plain.rotatedEnv { now := 2 } (.userDelete BATCH)
      { Plain.longTable with clock := 1 } = some (r, w₂) := ⟨_, _, rfl⟩
  have users : w₂.users = Plain.longTable.users.filter (·.id ≠ BATCH) := by
    cases exec_userDelete deletes with
    | failed fails => cases fails
    | deleted _ _ users => exact users
    | missing absent =>
      have missing := List.find?_eq_none.mp absent (Plain.numbered BATCH)
        (Plain.mem_longTable (by decide) (by decide))
      exact absurd (decide_eq_true rfl) missing
  have head₁ : c₁.pool (some 0) = UsersService.delete BATCH := others₁ (some 0) (by simp)
  obtain ⟨c₂, second, rfl, _, others₂⟩ := leads_call head₁ (world₁ ▸ deletes)
  have gone : c₂.world.userPage true (some BATCH) BATCH = [] := by
    have absent : (c₂.world.users.insertionSort fun u v => u.id ≤ v.id).any (·.id = BATCH) =
      false := by
      simp [users]
    simp [World.userPage, absent]
  have read₂ :
    exec Plain.rotatedEnv { now := 3, emptyPage := true } (.userFindMany (some BATCH) BATCH)
      c₂.world = some
        (.ok (c₂.world.userPage true (some BATCH) BATCH), { c₂.world with clock := 3 }) :=
    exec_eq_some.mpr ⟨(exec_spends deletes).clock ▸ by decide, rfl⟩
  have head₂ : c₂.pool none = .call (.userFindMany (some BATCH) BATCH) fun r =>
      (fun _ => ()) <$> turn Plain.rotatedEnv 0 0 r := by
    rw [others₂ none (by simp), script₁, Plain.longTable_turn]
    rfl
  obtain ⟨c₃, third, world₃, script₃, _⟩ := leads_call head₂ read₂
  refine ⟨c₃, leads_trans first (leads_trans second third), ?_, ?_, ?_, ?_⟩
  · rw [script₃, gone]
    rfl
  · exact Plain.mem_longTable (by decide) (by decide)
  · have kept : Plain.lastRow ∈ c₂.world.users := by
      rw [users]
      exact List.mem_filter.mpr ⟨Plain.mem_longTable (by decide) (by decide), by decide⟩
    rw [world₃]
    exact kept
  · decide +kernel

end BajaValle
