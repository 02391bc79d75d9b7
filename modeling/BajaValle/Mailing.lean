import BajaValle.CartSheet
import BajaValle.ContactMail
import BajaValle.Lib.Remainders
import Mathlib.Data.Nat.Digits.Defs

/-!
# Sending the mails

Both forms hand one mail to the transport, which accepts or refuses it. Whatever the
interleaving, the mails accepted are those of the requests that answer without failure,
one each and in order, and a folio tells when its request was served.
-/

namespace BajaValle

open CallPrograms Prog Interleaving

/-! ## Folios -/

/-- The digits of `toString(36).toUpperCase()`. -/
def digit36 (d : Nat) : Char := Char.ofNat (if d < 10 then 48 + d else 55 + d)

def toString36 (n : Nat) : String :=
  if n = 0 then "0" else String.ofList ((Nat.digits 36 n).reverse.map digit36)

def folioOf (now : Nat) : String := "COT-" ++ toString36 now

/-- The number that a digit stands for. -/
def value36 (c : Char) : Nat := if c.toNat < 58 then c.toNat - 48 else c.toNat - 55

/-- The time that a folio stands for. -/
def readFolio (folio : String) : Nat :=
  Nat.ofDigits 36 ((folio.toList.drop 4).reverse.map value36)

lemma value36_digit36 : ∀ d < 36, value36 (digit36 d) = d := by decide

lemma values_digits (n : Nat) : ((Nat.digits 36 n).map digit36).map value36 = Nat.digits 36 n := by
  rw [List.map_map]
  refine (List.map_congr_left fun d hd => ?_).trans (List.map_id _)
  exact value36_digit36 d (Nat.digits_lt_base (by omega) hd)

theorem readFolio_folioOf (now : Nat) : readFolio (folioOf now) = now := by
  have text : (folioOf now).toList.drop 4 = (toString36 now).toList := by
    rw [folioOf, String.toList_append]
    rfl
  rw [readFolio, text, toString36]
  by_cases zero : now = 0
  · subst zero
    rfl
  · rw [if_neg zero, String.toList_ofList]
    simp only [List.map_reverse, List.reverse_reverse]
    rw [values_digits, Nat.ofDigits_digits]

/-! ## The service -/

structure InternalServerErrorException where
  message : String
  deriving DecidableEq

structure MailEnv where
  MAIL_USER : String
  MAIL_TO : String
  xl : Exceljs
  /-- `new Date(now).toLocaleDateString('es-MX', …)` -/
  localeDate : Nat → String

structure Attachment (xl : Exceljs) where
  filename : String
  content : xl.Sheet
  contentType : String

structure Mail (xl : Exceljs) where
  sender : String
  recipient : String
  replyTo : String
  subject : String
  html : Option String := none
  text : Option String := none
  attachments : List (Attachment xl) := []

/-- A read of the clock, or `transporter.sendMail`, which resolves or rejects. -/
inductive MailOp (xl : Exceljs) where
  | dateNow
  | sendMail (mail : Mail xl)

def MailOp.Res {xl : Exceljs} : MailOp xl → Type
  | .dateNow => Nat
  | .sendMail _ => Bool

/-- The time, and the mails that the transport has accepted. -/
structure MailRoom (xl : Exceljs) where
  clock : Nat
  accepted : List (Mail xl)

structure MailChoice where
  now : Nat := 0
  rejects : Bool := false

/-- Time never runs back. A rejected mail is not sent. -/
def MailRoom.exec {xl : Exceljs} (ch : MailChoice) :
    (op : MailOp xl) → MailRoom xl → Option (op.Res × MailRoom xl)
  | .dateNow, w => if ch.now < w.clock then none else some (ch.now, { w with clock := ch.now })
  | .sendMail mail, w =>
    if ch.now < w.clock then none
    else if ch.rejects then some (false, { w with clock := ch.now })
    else some (true, { clock := ch.now, accepted := w.accepted ++ [mail] })

abbrev MailTask (xl : Exceljs) (α : Type) :=
  Prog (MailOp xl) MailOp.Res InternalServerErrorException α

namespace MailService

def SENDER_NAME : String := "Baja Valle App"

def SHEET_TYPE : String := "application/vnd.openxmlformats-officedocument.spreadsheetml.sheet"

variable (env : MailEnv)

def sender : String := "\"" ++ SENDER_NAME ++ "\" <" ++ env.MAIL_USER ++ ">"

def contactMail (dto : ContactMailDto) : Mail env.xl where
  sender := sender env
  recipient := env.MAIL_TO
  replyTo := dto.correo
  subject := "Nuevo mensaje de contacto — " ++ dto.nombre ++ " " ++ dto.apellido
  html := some (buildContactHtml dto)

def cartMail (dto : CartMailDto) (folio : String) (workbook : env.xl.Sheet) : Mail env.xl where
  sender := sender env
  recipient := env.MAIL_TO
  replyTo := dto.correo
  subject := "Nueva solicitud de cotización — " ++ dto.nombre ++ " " ++ dto.apellido
  text := some ("Se recibió una nueva solicitud de cotización de " ++ dto.nombre ++ " " ++
    dto.apellido ++ " (" ++ dto.correo ++ ", " ++ dto.ubicacion ++
    "). El detalle se encuentra en el archivo adjunto.")
  attachments := [⟨folio ++ ".xlsx", workbook, SHEET_TYPE⟩]

/-- What is thrown inside of `try` is told apart by nobody. -/
abbrev TryTask (xl : Exceljs) (α : Type) := Prog (MailOp xl) MailOp.Res Unit α

def sendMail (mail : Mail env.xl) : TryTask env.xl Unit := do
  let resolved : Bool ← Prog.perform (MailOp.sendMail mail)
  if resolved then return () else .throw ()

def contactNotSent : InternalServerErrorException := ⟨"No se pudo enviar el correo de contacto"⟩

def cartNotSent : InternalServerErrorException := ⟨"No se pudo enviar el correo de cotización"⟩

def sendContact (dto : ContactMailDto) : MailTask env.xl Unit :=
  (sendMail env (contactMail env dto)).mapError fun _ => contactNotSent

def sendCart (dto : CartMailDto) : MailTask env.xl Unit :=
  Prog.mapError (fun _ => cartNotSent) do
    let now : Nat ← Prog.perform MailOp.dateNow
    let folio := folioOf now
    let today : Nat ← Prog.perform MailOp.dateNow
    match buildCartWorkbook dto folio (env.localeDate today) env.xl with
    | .ok workbook => sendMail env (cartMail env dto folio workbook)
    | .error _ => .throw ()

end MailService

/-! ## Simultaneous requests -/

inductive MailRequest where
  | contact (dto : ContactMailDto)
  | cart (dto : CartMailDto)

def MailRequest.run (env : MailEnv) : MailRequest → MailTask env.xl Unit
  | .contact dto => MailService.sendContact env dto
  | .cart dto => MailService.sendCart env dto

def MailRequest.notSent : MailRequest → InternalServerErrorException
  | .contact _ => MailService.contactNotSent
  | .cart _ => MailService.cartNotSent

abbrev MailCall (env : MailEnv) := Call (MailOp env.xl) MailOp.Res

abbrev MailServer (env : MailEnv) :=
  Config Nat (MailRoom env.xl) MailChoice (MailOp env.xl) MailOp.Res InternalServerErrorException
    Unit

def openMail (env : MailEnv) (reqs : Nat → MailRequest) (w : MailRoom env.xl) : MailServer env :=
  start w fun i => (reqs i).run env

/-- The states that the requests for mails can reach. -/
abbrev MailReachable (env : MailEnv) (reqs : Nat → MailRequest) (w : MailRoom env.xl)
    (c : MailServer env) : Prop :=
  Interleaving.Leads MailRoom.exec (openMail env reqs w) c

/-- The mail that a call has sent. -/
def sentMail {env : MailEnv} : MailCall env → Option (Mail env.xl)
  | ⟨.sendMail mail, true⟩ => some mail
  | _ => none

/-- The time that a call has read. -/
def readTime {env : MailEnv} : MailCall env → Option Nat
  | ⟨.dateNow, now⟩ => some now
  | ⟨.sendMail _, _⟩ => none

/-- Who has sent which mail, in order. -/
def sentBy {env : MailEnv} (history : List (Event Nat MailChoice (MailOp env.xl) MailOp.Res)) :
    List (Nat × Mail env.xl) :=
  history.reverse.filterMap fun e => (sentMail e.call).map (e.who, ·)

/-- The mail of a request that read these times before it sent. -/
def MailRequest.Composes (env : MailEnv) (times : List Nat) (mail : Mail env.xl) :
    MailRequest → Prop
  | .contact dto => mail = MailService.contactMail env dto
  | .cart dto => ∃ now today workbook, times = [today, now] ∧
      MailService.buildCartWorkbook dto (folioOf now) (env.localeDate today) env.xl = .ok workbook ∧
      mail = MailService.cartMail env dto (folioOf now) workbook

/-- What a request may have done so far. -/
inductive Stage (env : MailEnv) (req : MailRequest) :
    List (MailCall env) → MailTask env.xl Unit → Prop where
  | running {h p} (unsent : ∀ k ∈ h, sentMail k = none) (waits : p.outcome = none) :
      Stage env req h p
  | sent {h mail} (unsent : ∀ k ∈ h, sentMail k = none)
      (composed : req.Composes env (h.filterMap readTime) mail) :
      Stage env req (⟨.sendMail mail, true⟩ :: h) (.ret ())
  | refused {h} (unsent : ∀ k ∈ h, sentMail k = none) : Stage env req h (.throw req.notSent)

section Runs
variable {env : MailEnv} {reqs : Nat → MailRequest} {w : MailRoom env.xl} {c : MailServer env}

/-- Sending, where failing to send has this effect. -/
abbrev sending (mail : Mail env.xl) (failed : InternalServerErrorException) :
    MailTask env.xl Unit :=
  .call (.sendMail mail) fun resolved : Bool => if resolved then .ret () else .throw failed

lemma sendMail_mapError (mail : Mail env.xl) (failed : InternalServerErrorException) :
    (MailService.sendMail env mail).mapError (fun _ => failed) = sending mail failed := by
  have ends : ∀ resolved : Bool, Prog.mapError (fun _ => failed)
      (if resolved then .ret () else .throw () : MailService.TryTask env.xl Unit) =
        if resolved then .ret () else .throw failed := by
    intro resolved
    cases resolved with
    | false => rfl
    | true => rfl
  exact congrArg (Prog.call _) (funext ends)

lemma sendCart_eq (dto : CartMailDto) : MailService.sendCart env dto =
    .call .dateNow fun now => .call .dateNow fun today =>
      match MailService.buildCartWorkbook dto (folioOf now) (env.localeDate today) env.xl with
      | .ok workbook => sending (MailService.cartMail env dto (folioOf now) workbook)
          MailService.cartNotSent
      | .error _ => .throw MailService.cartNotSent := by
  have built : ∀ (folio : String) (b : Except env.xl.Error env.xl.Sheet),
      Prog.mapError (fun _ => MailService.cartNotSent) (match b with
        | .ok workbook => MailService.sendMail env (MailService.cartMail env dto folio workbook)
        | .error _ => .throw ()) =
      match b with
      | .ok workbook =>
        sending (MailService.cartMail env dto folio workbook) MailService.cartNotSent
      | .error _ => .throw MailService.cartNotSent := by
    intro folio b
    cases b with
    | ok workbook => exact sendMail_mapError _ _
    | error e => rfl
  exact congrArg (Prog.call _) (funext fun now =>
    congrArg (Prog.call _) (funext fun today => built _ _))

/-- The one call that sends decides how the request ends. -/
lemma stage_sending {req : MailRequest} {mail : Mail env.xl} {before h : List (MailCall env)}
    {p : MailTask env.xl Unit} (composed : req.Composes env (before.filterMap readTime) mail)
    (unsent : ∀ k ∈ before, sentMail k = none)
    (after : (sending mail req.notSent).After h p) : Stage env req (h ++ before) p := by
  rcases after_call.mp after with ⟨rfl, rfl⟩ | ⟨resolved, h', rfl, rest⟩
  · exact .running unsent rfl
  · cases resolved with
    | true =>
      obtain ⟨rfl, rfl⟩ := (after_ret ()).mp rest
      exact .sent unsent composed
    | false =>
      obtain ⟨rfl, rfl⟩ := (after_throw req.notSent).mp rest
      exact .refused (List.forall_mem_cons.mpr ⟨rfl, unsent⟩)

lemma stage_of_after {req : MailRequest} {h : List (MailCall env)} {p : MailTask env.xl Unit}
    (after : (req.run env).After h p) : Stage env req h p := by
  cases req with
  | contact dto =>
    rw [MailRequest.run, MailService.sendContact, sendMail_mapError] at after
    simpa using @stage_sending env (.contact dto) _ [] _ _ rfl (by simp) after
  | cart dto =>
    rw [MailRequest.run, sendCart_eq] at after
    rcases after_call.mp after with ⟨rfl, rfl⟩ | ⟨now, h₁, rfl, timed⟩
    · exact .running (by simp) rfl
    rcases after_call.mp timed with ⟨rfl, rfl⟩ | ⟨today, h₂, rfl, dated⟩
    · exact .running (by simp [sentMail]) rfl
    cases built : MailService.buildCartWorkbook dto (folioOf now) (env.localeDate today) env.xl with
    | ok workbook =>
      rw [built] at dated
      rw [List.append_assoc]
      exact stage_sending ⟨now, today, workbook, rfl, built, rfl⟩
        (by simp [sentMail]) dated
    | error e =>
      rw [built] at dated
      obtain ⟨rfl, rfl⟩ := (after_throw MailService.cartNotSent).mp dated
      exact @Stage.refused env (.cart dto) _ (by simp [sentMail])

lemma leads_stage (run : MailReachable env reqs w c) (i : Nat) :
    Stage env (reqs i) (own i c.history) (c.pool i) :=
  stage_of_after (leads_after run i)

lemma mem_sentBy {history : List (Event Nat MailChoice (MailOp env.xl) MailOp.Res)} {i : Nat}
    {mail : Mail env.xl} :
    (i, mail) ∈ sentBy history ↔ ∃ k ∈ own i history, sentMail k = some mail := by
  simp only [sentBy, List.mem_filterMap, List.mem_reverse, Option.map_eq_some_iff, Prod.mk.injEq]
  constructor
  · rintro ⟨⟨_, ch, k⟩, mem, _, sent, rfl, rfl⟩
    exact ⟨k, mem_own.mpr ⟨ch, mem⟩, sent⟩
  · rintro ⟨k, mem, sent⟩
    obtain ⟨ch, made⟩ := mem_own.mp mem
    exact ⟨⟨i, ch, k⟩, made, mail, sent, rfl, rfl⟩

lemma mem_senders {history : List (Event Nat MailChoice (MailOp env.xl) MailOp.Res)} {i : Nat} :
    i ∈ (sentBy history).map Prod.fst ↔ ∃ k ∈ own i history, sentMail k ≠ none := by
  simp only [List.mem_map, Prod.exists, exists_and_right, exists_eq_right, mem_sentBy,
    ← Option.isSome_iff_ne_none, Option.isSome_iff_exists]
  constructor
  · rintro ⟨mail, k, mem, sent⟩
    exact ⟨k, mem, mail, sent⟩
  · rintro ⟨k, mem, mail, sent⟩
    exact ⟨mail, k, mem, sent⟩

/-- What a request has sent is settled by how it has ended. -/
lemma Stage.sent_iff {req : MailRequest} {h : List (MailCall env)} {p : MailTask env.xl Unit}
    (stage : Stage env req h p) :
    ((∃ k ∈ h, sentMail k ≠ none) ↔ p.outcome = some (.ok ())) ∧
      ∀ k ∈ h, ∀ mail, sentMail k = some mail → ∃ older, h = k :: older ∧
        (∀ k ∈ older, sentMail k = none) ∧ req.Composes env (older.filterMap readTime) mail := by
  cases stage with
  | running unsent waits =>
    refine ⟨iff_of_false ?_ (by simp [waits]), fun k hk mail sent => ?_⟩
    · rintro ⟨k, hk, sent⟩
      exact sent (unsent k hk)
    · simp [unsent k hk] at sent
  | refused unsent =>
    refine ⟨iff_of_false ?_ (by simp [outcome]), fun k hk mail sent => ?_⟩
    · rintro ⟨k, hk, sent⟩
      exact sent (unsent k hk)
    · simp [unsent k hk] at sent
  | @sent older mail unsent composed =>
    refine ⟨iff_of_true ⟨_, List.mem_cons_self, by simp [sentMail]⟩ rfl, fun k hk mail' sent => ?_⟩
    rcases List.mem_cons.mp hk with rfl | old
    · obtain rfl := Option.some.inj sent
      exact ⟨older, rfl, unsent, composed⟩
    · simp [unsent k old] at sent

lemma Stage.fails {req : MailRequest} {h : List (MailCall env)} {p : MailTask env.xl Unit}
    (stage : Stage env req h p) {e : InternalServerErrorException}
    (failed : p.outcome = some (.error e)) : e = req.notSent := by
  cases stage with
  | running _ waits => simp [waits] at failed
  | sent => simp [outcome] at failed
  | refused => simpa [outcome, eq_comm] using failed

/-- What one call does to the room. -/
lemma exec_room {ch : MailChoice} {op : MailOp env.xl} {r : op.Res} {v v' : MailRoom env.xl}
    (answered : MailRoom.exec ch op v = some (r, v')) : v.clock ≤ v'.clock ∧
      v'.accepted = v.accepted ++ (sentMail ⟨op, r⟩).toList ∧
      ∀ t, readTime (⟨op, r⟩ : MailCall env) = some t → t = v'.clock := by
  cases op with
  | dateNow =>
    simp only [MailRoom.exec] at answered
    split_ifs at answered with late
    obtain ⟨rfl, rfl⟩ := Prod.mk.inj (Option.some.inj answered)
    exact ⟨by simpa using late, by simp [sentMail], by simp [readTime]⟩
  | sendMail mail =>
    simp only [MailRoom.exec] at answered
    split_ifs at answered with late rejected
    · obtain ⟨rfl, rfl⟩ := Prod.mk.inj (Option.some.inj answered)
      exact ⟨by simpa using late, by simp [sentMail], by simp [readTime]⟩
    · obtain ⟨rfl, rfl⟩ := Prod.mk.inj (Option.some.inj answered)
      exact ⟨by simpa using late, by simp [sentMail], by simp [readTime]⟩

lemma accepted_eq (run : MailReachable env reqs w c) :
    c.world.accepted = w.accepted ++ (sentBy c.history).map Prod.snd := by
  refine leads_invariant (P := fun c => c.world.accepted =
    w.accepted ++ (sentBy c.history).map Prod.snd) ?_ run (by simp [openMail, start, sentBy])
  intro c c' i ch same fired
  obtain ⟨op, next, r, w', head, answered, rfl⟩ := fire_eq_some.mp fired
  simp only [(exec_room answered).2.1, same, List.append_assoc, sentBy, List.reverse_cons,
    List.filterMap_append, List.map_append]
  cases sent : sentMail (⟨op, r⟩ : MailCall env) with
  | none => simp [sent]
  | some mail => simp [sent]

/-- Times are read in order, and not before the start. -/
lemma times_sorted (run : MailReachable env reqs w c) :
    (c.history.filterMap fun e => readTime e.call).Pairwise (· ≥ ·) ∧
      (∀ t ∈ c.history.filterMap fun e => readTime e.call, w.clock ≤ t ∧ t ≤ c.world.clock) ∧
      w.clock ≤ c.world.clock := by
  refine leads_invariant (P := fun c => (c.history.filterMap fun e => readTime e.call).Pairwise
    (· ≥ ·) ∧ (∀ t ∈ c.history.filterMap fun e => readTime e.call, w.clock ≤ t ∧
      t ≤ c.world.clock) ∧ w.clock ≤ c.world.clock) ?_ run
    ⟨List.Pairwise.nil, by simp [openMail, start], Nat.le_refl _⟩
  rintro c c' i ch ⟨sorted, within, started⟩ fired
  obtain ⟨op, next, r, w', head, answered, rfl⟩ := fire_eq_some.mp fired
  obtain ⟨later, -, now⟩ := exec_room answered
  simp only [List.filterMap_cons]
  cases read : readTime (⟨op, r⟩ : MailCall env) with
  | none =>
    refine ⟨sorted, fun t ht => ?_, by omega⟩
    have := within t ht
    omega
  | some time =>
    obtain rfl := now time read
    refine ⟨List.pairwise_cons.mpr ⟨fun t ht => ?_, sorted⟩, ?_, by omega⟩
    · have := within t ht
      omega
    · refine List.forall_mem_cons.mpr ⟨by omega, fun t ht => ?_⟩
      have := within t ht
      omega

lemma own_times (i : Nat) (history : List (Event Nat MailChoice (MailOp env.xl) MailOp.Res)) :
    ((own i history).filterMap readTime).Sublist (history.filterMap fun e => readTime e.call) := by
  rw [own, List.filterMap_map]
  exact List.filter_sublist.filterMap _

lemma readTime_of_sent {k : MailCall env} {mail : Mail env.xl} (sent : sentMail k = some mail) :
    readTime k = none := by
  obtain ⟨op, r⟩ := k
  cases op with
  | dateNow => cases sent
  | sendMail mail' => rfl

/-- Nobody sends twice. -/
lemma senders_nodup (run : MailReachable env reqs w c) :
    ((sentBy c.history).map Prod.fst).Nodup := by
  refine leads_induction (P := fun c => ((sentBy c.history).map Prod.fst).Nodup) run
    (by simp [openMail, start, sentBy]) ?_
  intro c c' i ch reached once fired
  have stage := leads_stage (leads_trans reached (leads_of_fire fired)) i
  obtain ⟨op, next, r, w', head, answered, rfl⟩ := fire_eq_some.mp fired
  simp only [sentBy, List.reverse_cons, List.filterMap_append, List.map_append] at once ⊢
  cases sent : sentMail (⟨op, r⟩ : MailCall env) with
  | none => simpa [sent] using once
  | some mail =>
    rw [own_cons_self] at stage
    obtain ⟨older, same, unsent, -⟩ := stage.sent_iff.2 _ List.mem_cons_self mail sent
    obtain rfl := (List.cons.inj same).2
    have fresh : i ∉ (sentBy c.history).map Prod.fst := by
      rw [mem_senders]
      rintro ⟨k, hk, made⟩
      exact made (unsent k hk)
    refine List.nodup_append.mpr ⟨once, by simp [sent], ?_⟩
    rintro j before k now rfl
    obtain rfl : j = i := by simpa [sent] using now
    exact fresh before

end Runs

/-- The transport has accepted one mail for each request that has answered without
failure, in the order in which it did, and none for the others; and each mail is what
its request composed at the times that it read, the first of which its folio tells. -/
theorem mails_accepted (env : MailEnv) (reqs : Nat → MailRequest) (w : MailRoom env.xl)
    (c : MailServer env) (run : MailReachable env reqs w c) :
    c.world.accepted = w.accepted ++ (sentBy c.history).map Prod.snd ∧
    ((sentBy c.history).map Prod.fst).Nodup ∧
    (∀ i, i ∈ (sentBy c.history).map Prod.fst ↔ (c.pool i).outcome = some (.ok ())) ∧
    (∀ i e, (c.pool i).outcome = some (.error e) → e = (reqs i).notSent) ∧
    ∀ i mail, (i, mail) ∈ sentBy c.history →
      (reqs i).Composes env ((own i c.history).filterMap readTime) mail ∧
      ((own i c.history).filterMap readTime).Pairwise (· ≥ ·) ∧
      (∀ t ∈ (own i c.history).filterMap readTime, w.clock ≤ t ∧ t ≤ c.world.clock) ∧
      ∀ a ∈ mail.attachments, ∃ folio, a.filename = folio ++ ".xlsx" ∧
        ((own i c.history).filterMap readTime).getLast? = some (readFolio folio) := by
  refine ⟨accepted_eq run, senders_nodup run, fun i => ?_, fun i e failed => ?_,
    fun i mail sent => ?_⟩
  · rw [mem_senders]
    exact (leads_stage run i).sent_iff.1
  · exact (leads_stage run i).fails failed
  · obtain ⟨k, mem, made⟩ := mem_sentBy.mp sent
    obtain ⟨older, calls, -, composed⟩ := (leads_stage run i).sent_iff.2 k mem mail made
    -- the call that sent reads no clock, so these are all readings of the request
    have readings : (own i c.history).filterMap readTime = older.filterMap readTime := by
      rw [calls, List.filterMap_cons, readTime_of_sent made]
    rw [← readings] at composed
    obtain ⟨sorted, within, -⟩ := times_sorted run
    have mine := own_times i c.history
    refine ⟨composed, sorted.sublist mine, fun t ht => within t (mine.subset ht), fun a ha => ?_⟩
    cases req : reqs i with
    | contact dto =>
      rw [req] at composed
      obtain rfl := composed
      simp [MailService.contactMail] at ha
    | cart dto =>
      rw [req] at composed
      obtain ⟨now, today, workbook, read, -, rfl⟩ := composed
      obtain rfl := List.mem_singleton.mp ha
      refine ⟨folioOf now, rfl, ?_⟩
      rw [readFolio_folioOf, read]
      rfl

namespace Plain

def mailEnv : MailEnv where
  MAIL_USER := "app@example.com"
  MAIL_TO := "ventas@example.com"
  xl := plainExceljs
  localeDate _ := "1 de mayo de 2025"

def askForWines : Nat → MailRequest
  | 0 => .cart MailService.twoWines
  | _ => .contact { nombre := "Ana", apellido := "Ruiz", correo := "ana@example.com",
                    mensaje := "Hola" }

def mailRoom : MailRoom mailEnv.xl := ⟨1700000000000, []⟩

end Plain

theorem mails_accepted_once :
    ∃ c, MailReachable Plain.mailEnv Plain.askForWines Plain.mailRoom c ∧
      0 ∈ (sentBy c.history).map Prod.fst ∧ 1 ∉ (sentBy c.history).map Prod.fst ∧
      c.world.accepted = (sentBy c.history).map Prod.snd := by
  have shown : (play MailRoom.exec [(0, { now := 1700000000001 }), (0, { now := 1700000000001 }),
      (1, { now := 1700000000002, rejects := true }), (0, { now := 1700000000003 })]
      (openMail Plain.mailEnv Plain.askForWines Plain.mailRoom)).any (fun c => decide
        ((c.pool 0).outcome = some (.ok ()) ∧
          (c.pool 1).outcome = some (.error MailService.contactNotSent))) = true := by
    decide +kernel
  obtain ⟨c, run, ended⟩ := leads_of_play _ shown
  obtain ⟨sent, refused⟩ := of_decide_eq_true ended
  obtain ⟨accepted, -, answered, -⟩ :=
    mails_accepted Plain.mailEnv Plain.askForWines Plain.mailRoom c run
  refine ⟨c, run, (answered 0).mpr sent, fun other => ?_, accepted⟩
  have both := (answered 1).mp other
  rw [refused] at both
  cases both

end BajaValle
