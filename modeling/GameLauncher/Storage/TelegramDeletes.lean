import GameLauncher.Foundation.Run
import GameLauncher.Storage.Providers

/-!
# Deletes of the Telegram provider

The provider enrols an object under its hash, with the message that holds it, in memory and in its
state file. `delete` takes the object out of the memory, asks the bot to delete the message and
saves the state, in this order. `losesNothing_iff` says when that loses nothing: a call that leaves
the message where it is has already made the provider forget it.

The calls come one after the other, each with the answers of the file system and of the bot. Beside
the provider's own state the world has `remaining`, which no function reads: the messages of the
objects enrolled last that still exist.
-/

set_option autoImplicit false

namespace GameLauncher.Storage.Telegram

open Foundation Fallible Option Function
open ColdStorage (StorageError validateHash)

/-! ### The bot -/

/-- What a request to the bot leads to: a failure of the request, of its body or of the JSON, or the
envelope of an answer. -/
inductive Reply (α : Type)
  | failed (failure : StorageError)
  | envelope (status : ℕ) (ok : Bool) (result : Option α) (description : Option Text)

def Reply.call {α : Type} (method : Text) : Reply α → Except StorageError α
  | failed failure => .error failure
  | envelope status ok result description => do
    throwIf (¬ (200 ≤ status ∧ status < 300) ∨ ok = false)
      (.provider ("Telegram " ++ method ++ " failed with HTTP " ++ decimal status ++
        ": " ++ description.getD "unspecified API error"))
    orThrow result (.provider ("Telegram " ++ method ++ " returned no result"))

/-! ### The provider -/

/-- The objects that are enrolled, by their hashes. -/
abbrev Objects := Text → Option TelegramObjectRef

structure World where
  loaded : Bool
  objects : Objects
  stateFile : Objects
  remaining : Objects

/-- A new provider with a state file, of whose messages some still exist. -/
def World.start (stateFile : Objects) (exists' : Text → Bool) : World where
  loaded := false
  objects := fun _ ↦ none
  stateFile := stateFile
  remaining := fun hash ↦ if exists' hash then stateFile hash else none

def ensureStateLoaded (readable : Except StorageError Unit) (world : World) :
    Except StorageError Unit × World :=
  if world.loaded then (.ok (), world)
  else
    match readable with
    | .error failure => (.error failure, world)
    | .ok () => (.ok (), { world with objects := world.stateFile, loaded := true })

def saveState (written : Except StorageError Unit) (world : World) :
    Except StorageError Unit × World :=
  match written with
  | .error failure => (.error failure, world)
  | .ok () => (.ok (), { world with stateFile := world.objects })

structure UploadAnswers where
  readable : Except StorageError Unit
  /-- Can the file of `upload_file` be opened? -/
  opened : Except StorageError Unit
  chatId : ℤ
  reply : Reply TelegramMessage
  written : Except StorageError Unit

/-- `upload` and `upload_file`. -/
def upload (maxUploadBytes : ℕ) (hash : Text) (size : ℕ) (answers : UploadAnswers)
    (world : World) : Except StorageError Unit × World :=
  match ensureStateLoaded answers.readable world with
  | (.error failure, world) => (.error failure, world)
  | (.ok (), world) =>
    let sent : Except StorageError TelegramObjectRef := do
      throwIf (maxUploadBytes < size) (.configuration
        ("Telegram COLD object exceeds configured upload limit of " ++
          decimal maxUploadBytes ++ " bytes"))
      validateHash hash
      answers.opened
      let message ← answers.reply.call "sendDocument"
      let document ← orThrow message.document
        (provider "Telegram did not return a document reference")
      pure ⟨answers.chatId, message.messageId, document.fileId, document.fileUniqueId, size⟩
    match sent with
    | .error failure => (.error failure, world)
    | .ok reference => saveState answers.written { world with
        objects := Function.update world.objects hash (some reference)
        remaining := Function.update world.remaining hash (some reference) }

/-- What a delete meets; `removes` says whether its call deletes the message, whatever is answered. -/
structure DeleteAnswers where
  readable : Except StorageError Unit
  reply : Reply Bool
  removes : Bool
  written : Except StorageError Unit

def delete (hash : Text) (answers : DeleteAnswers) (world : World) :
    Except StorageError Unit × World :=
  match ensureStateLoaded answers.readable world with
  | (.error failure, world) => (.error failure, world)
  | (.ok (), world) =>
    match world.objects hash with
    | none => (.ok (), world)
    | some _ =>
      let world := { world with
        objects := Function.update world.objects hash none
        remaining := if answers.removes then Function.update world.remaining hash none
          else world.remaining }
      match answers.reply.call "deleteMessage" with
      | .error failure => (.error failure, world)
      | .ok _ => saveState answers.written world

/-- What a read meets. -/
structure DownloadAnswers where
  readable : Except StorageError Unit
  file : Reply (Option Text)
  download : Except StorageError ℕ

/-- `open_download`: the file that is read and its size. -/
def openDownload (hash : Text) (answers : DownloadAnswers) (world : World) :
    Except StorageError (Text × ℕ) × World :=
  match ensureStateLoaded answers.readable world with
  | (.error failure, world) => (.error failure, world)
  | (.ok (), world) =>
    (do
      validateHash hash
      let reference ← orThrow (world.objects hash) (.unavailable ("Telegram object " ++
        hash ++ " is not enrolled in the worker state"))
      let file ← answers.file.call "getFile"
      let _ ← orThrow file (provider "Telegram getFile returned no file path")
      let status ← answers.download
      throwIf (¬ (200 ≤ status ∧ status < 300)) (.provider
        ("Telegram file download returned HTTP " ++ decimal status))
      pure (reference.fileId, reference.size), world)

/-! ### Runs -/

/-- A call of the provider, or the loss of a message. -/
inductive Operation
  | upload (hash : Text) (size : ℕ) (answers : UploadAnswers)
  | delete (hash : Text) (answers : DeleteAnswers)
  | read (hash : Text) (answers : DownloadAnswers)
  | vanish (hash : Text)

def step (maxUploadBytes : ℕ) (world : World) : Operation → World
  | .upload hash size answers => (upload maxUploadBytes hash size answers world).2
  | .delete hash answers => (delete hash answers world).2
  | .read hash answers => (openDownload hash answers world).2
  | .vanish hash => { world with remaining := Function.update world.remaining hash none }

/-- The objects that the provider knows, once it has read its state file. -/
def World.enrolled (world : World) : Objects :=
  (ensureStateLoaded (.ok ()) world).2.objects

def World.saved (world : World) : Objects :=
  (saveState (.ok ()) (ensureStateLoaded (.ok ()) world).2).2.stateFile

/-- A delete that fails leaves an object whose message exists enrolled, and one that succeeds leaves
no message of an object that was enrolled. -/
def LosesNothing (world : World) : Operation → Prop
  | .delete hash answers =>
    (∀ failure reference, (delete hash answers world).1 = .error failure →
      (delete hash answers world).2.remaining hash = some reference →
        (delete hash answers world).2.enrolled hash = some reference ∧
          (delete hash answers world).2.saved hash = some reference) ∧
    ((delete hash answers world).1 = .ok () → (delete hash answers world).2.remaining hash = none)
  | _ => True

/-- A delete that asks the bot to delete a message which exists makes it go. -/
def Reliable (world : World) : Operation → Prop
  | .delete hash answers => (ensureStateLoaded answers.readable world).1 = .ok () →
      (∃ reference, world.remaining hash = some reference) → answers.removes = true
  | _ => True

def Sound (world : World) : Prop :=
  ∀ hash reference, world.remaining hash = some reference → world.enrolled hash = some reference

variable {world : World}

theorem enrolled_of_loaded (h : world.loaded = true) : world.enrolled = world.objects := by
  unfold World.enrolled ensureStateLoaded
  rw [if_pos h]

theorem saved_eq_enrolled (world : World) : world.saved = world.enrolled := rfl

theorem ensureStateLoaded_cases (readable : Except StorageError Unit) (world : World) :
    (∃ failure, ensureStateLoaded readable world = (.error failure, world)) ∨
      ∃ after, ensureStateLoaded readable world = (.ok (), after) ∧ after.loaded = true ∧
        after.objects = world.enrolled ∧ after.remaining = world.remaining := by
  unfold World.enrolled ensureStateLoaded
  by_cases hloaded : world.loaded = true
  · rw [if_pos hloaded, if_pos hloaded]
    exact .inr ⟨world, rfl, hloaded, rfl, rfl⟩
  · rw [if_neg hloaded, if_neg hloaded]
    cases readable with
    | error failure => exact .inl ⟨failure, rfl⟩
    | ok _ => exact .inr ⟨_, rfl, rfl, rfl, rfl⟩

theorem saveState_keeps (written : Except StorageError Unit) (world : World) :
    (saveState written world).2.loaded = world.loaded ∧
      (saveState written world).2.objects = world.objects ∧
      (saveState written world).2.remaining = world.remaining := by
  unfold saveState
  cases written with
  | error failure => exact ⟨rfl, rfl, rfl⟩
  | ok _ => exact ⟨rfl, rfl, rfl⟩

/-- What a delete leaves: nothing changed but what loading the state enrols, or no object under the
hash. -/
theorem delete_cases (hash : Text) (answers : DeleteAnswers) (world : World) :
    (∃ failure, ensureStateLoaded answers.readable world = (.error failure, world) ∧
      delete hash answers world = (.error failure, world)) ∨
    (ensureStateLoaded answers.readable world).1 = .ok () ∧
      (delete hash answers world).2.loaded = true ∧
      ((world.enrolled hash = none ∧ (delete hash answers world).1 = .ok () ∧
          (delete hash answers world).2.objects = world.enrolled ∧
          (delete hash answers world).2.remaining = world.remaining) ∨
        ((∃ reference, world.enrolled hash = some reference) ∧
          (delete hash answers world).2.objects = Function.update world.enrolled hash none ∧
          (delete hash answers world).2.remaining =
            if answers.removes then Function.update world.remaining hash none
            else world.remaining)) := by
  unfold delete
  rcases ensureStateLoaded_cases answers.readable world with
    ⟨failure, hload⟩ | ⟨after, hload, hloaded, hobjects, hremaining⟩
  · rw [hload]
    exact .inl ⟨failure, rfl, rfl⟩
  · rw [hload]
    dsimp only
    rw [hobjects]
    refine .inr ⟨rfl, ?_⟩
    cases henrolled : world.enrolled hash with
    | none => exact ⟨hloaded, .inl ⟨rfl, rfl, hobjects, hremaining⟩⟩
    | some reference =>
      dsimp only
      rw [hremaining]
      cases answers.reply.call "deleteMessage" with
      | error failure => exact ⟨hloaded, .inr ⟨⟨reference, rfl⟩, rfl, rfl⟩⟩
      | ok _ =>
        obtain ⟨hstill, hkept, hleft⟩ := saveState_keeps answers.written { after with
          objects := Function.update world.enrolled hash none
          remaining := if answers.removes then Function.update world.remaining hash none
            else world.remaining }
        exact ⟨hstill.trans hloaded, .inr ⟨⟨reference, rfl⟩, hkept, hleft⟩⟩

theorem losesNothing_iff_reliable (h : Sound world) (operation : Operation) :
    LosesNothing world operation ↔ Reliable world operation := by
  cases operation with
  | upload hash size answers => exact Iff.rfl
  | read hash answers => exact Iff.rfl
  | vanish hash => exact Iff.rfl
  | delete hash answers =>
    unfold LosesNothing Reliable
    simp only [saved_eq_enrolled, and_self]
    rcases delete_cases hash answers world with
      ⟨failure, hload, hdelete⟩ | ⟨hload, hloaded, hnone | ⟨⟨reference, hreference⟩, hrest⟩⟩
    · rw [hload, hdelete]
      refine iff_of_true ⟨fun _ reference _ hremaining ↦ h hash reference hremaining, ?_⟩ ?_
      · exact fun hok ↦ nomatch hok
      · exact fun hok ↦ nomatch hok
    · obtain ⟨hunknown, hok, hobjects, hremaining⟩ := hnone
      have hgone : world.remaining hash = none := by
        by_contra hsome
        obtain ⟨reference, hsome⟩ := Option.ne_none_iff_exists'.mp hsome
        exact some_ne_none _ ((h hash reference hsome).symm.trans hunknown)
      rw [hok, hremaining, hgone]
      refine iff_of_true ⟨fun _ _ herror ↦ (nomatch herror), fun _ ↦ rfl⟩ ?_
      exact fun _ ⟨_, hsome⟩ ↦ (some_ne_none _ hsome.symm).elim
    · obtain ⟨hobjects, hremaining⟩ := hrest
      rw [enrolled_of_loaded hloaded, hobjects, hremaining, hload, update_self]
      cases hremoves : answers.removes with
      | true =>
        rw [if_pos rfl, update_self]
        refine iff_of_true ⟨fun _ _ _ hsome ↦ ?_, fun _ ↦ rfl⟩ fun _ _ ↦ rfl
        exact (some_ne_none _ hsome.symm).elim
      | false =>
        rw [if_neg Bool.false_ne_true]
        cases hmessage : world.remaining hash with
        | none =>
          refine iff_of_true ⟨fun _ _ _ hsome ↦ ?_, fun _ ↦ rfl⟩ fun _ ⟨_, hsome⟩ ↦ ?_
          · exact (some_ne_none _ hsome.symm).elim
          · exact (some_ne_none _ hsome.symm).elim
        | some message =>
          -- The message is still there, and the provider has forgotten it.
          refine iff_of_false (fun ⟨hfailed, hdone⟩ ↦ ?_) fun hreliable ↦ ?_
          · cases hresult : (delete hash answers world).1 with
            | error failure =>
              exact some_ne_none _ (hfailed failure message hresult rfl).symm
            | ok _ => exact some_ne_none _ (hdone hresult)
          · exact Bool.false_ne_true (hreliable rfl ⟨message, rfl⟩)

variable {after : World}

theorem Sound.of_eq (h : Sound world) (hloaded : after.loaded = true)
    (hobjects : after.objects = world.enrolled) (hremaining : after.remaining = world.remaining) :
    Sound after := by
  intro hash reference hsome
  rw [enrolled_of_loaded hloaded, hobjects]
  exact h hash reference (hremaining ▸ hsome)

theorem Sound.enrol (h : Sound world) (hash : Text) (reference : TelegramObjectRef)
    (hloaded : after.loaded = true)
    (hobjects : after.objects = Function.update world.enrolled hash (some reference))
    (hremaining : after.remaining = Function.update world.remaining hash (some reference)) :
    Sound after := by
  intro other message hsome
  rw [enrolled_of_loaded hloaded, hobjects]
  rw [hremaining] at hsome
  by_cases hother : other = hash
  · rw [hother, update_self] at hsome ⊢
    exact hsome
  · rw [update_of_ne hother] at hsome ⊢
    exact h other message hsome

theorem Sound.forget (h : Sound world) (hash : Text)
    (hothers : ∀ other, other ≠ hash → after.enrolled other = world.enrolled other ∧
      after.remaining other = world.remaining other) (hgone : after.remaining hash = none) :
    Sound after := by
  intro other message hsome
  by_cases hother : other = hash
  · rw [hother, hgone] at hsome
    exact (some_ne_none _ hsome.symm).elim
  · obtain ⟨henrolled, hremaining⟩ := hothers other hother
    rw [henrolled]
    exact h other message (hremaining ▸ hsome)

theorem sound_upload (h : Sound world) (maxUploadBytes : ℕ) (hash : Text) (size : ℕ)
    (answers : UploadAnswers) : Sound (upload maxUploadBytes hash size answers world).2 := by
  unfold upload
  rcases ensureStateLoaded_cases answers.readable world with
    ⟨failure, hload⟩ | ⟨after, hload, hloaded, hobjects, hremaining⟩
  · rw [hload]
    exact h
  · rw [hload]
    dsimp only
    split
    · exact h.of_eq hloaded hobjects hremaining
    · next reference hsent =>
      obtain ⟨hstill, hkept, hleft⟩ := saveState_keeps answers.written { after with
        objects := Function.update after.objects hash (some reference)
        remaining := Function.update after.remaining hash (some reference) }
      refine h.enrol hash reference (hstill.trans hloaded) (hkept.trans ?_) (hleft.trans ?_)
      · rw [hobjects]
      · rw [hremaining]

theorem sound_delete (h : Sound world) {hash : Text} {answers : DeleteAnswers}
    (hreliable : Reliable world (.delete hash answers)) : Sound (delete hash answers world).2 := by
  rcases delete_cases hash answers world with
    ⟨failure, -, hdelete⟩ |
    ⟨hload, hloaded, ⟨-, -, hobjects, hremaining⟩ | ⟨-, hobjects, hremaining⟩⟩
  · rw [hdelete]
    exact h
  · exact h.of_eq hloaded hobjects hremaining
  · refine h.forget hash (fun other hother ↦ ⟨?_, ?_⟩) ?_
    · rw [enrolled_of_loaded hloaded, hobjects, update_of_ne hother]
    · rw [hremaining]
      split_ifs
      · exact update_of_ne hother _ _
      · rfl
    · rw [hremaining]
      split_ifs with hremoves
      · exact update_self _ _ _
      · by_contra hsome
        obtain ⟨message, hsome⟩ := Option.ne_none_iff_exists'.mp hsome
        exact hremoves (hreliable hload ⟨message, hsome⟩)

/-- An operation keeps what remains enrolled, unless it is a delete that is not reliable. -/
theorem sound_step (h : Sound world) (maxUploadBytes : ℕ) {operation : Operation}
    (hreliable : Reliable world operation) : Sound (step maxUploadBytes world operation) := by
  cases operation with
  | upload hash size answers => exact sound_upload h maxUploadBytes hash size answers
  | delete hash answers => exact sound_delete h hreliable
  | read hash answers =>
    change Sound (openDownload hash answers world).2
    unfold openDownload
    rcases ensureStateLoaded_cases answers.readable world with
      ⟨failure, hload⟩ | ⟨after, hload, hloaded, hobjects, hremaining⟩
    · rw [hload]
      exact h
    · rw [hload]
      exact h.of_eq hloaded hobjects hremaining
  | vanish hash =>
    have henrolled : (step maxUploadBytes world (.vanish hash)).enrolled = world.enrolled := by
      unfold World.enrolled ensureStateLoaded step
      dsimp only
      split_ifs <;> rfl
    exact h.forget hash
      (fun other hother ↦ ⟨congrFun henrolled other, update_of_ne hother _ _⟩)
      (update_self _ _ _)

theorem sound_start (stateFile : Objects) (exists' : Text → Bool) :
    Sound (.start stateFile exists') := by
  intro hash reference hsome
  unfold World.start at hsome
  dsimp only at hsome
  split_ifs at hsome
  exact hsome

/-- A run of calls loses nothing exactly when all of its deletes are reliable. -/
theorem losesNothing_iff (maxUploadBytes : ℕ) (stateFile : Objects) (exists' : Text → Bool)
    (run : List Operation) :
    Permitted (step maxUploadBytes) LosesNothing (.start stateFile exists') run ↔
      Permitted (step maxUploadBytes) Reliable (.start stateFile exists') run := by
  have hrun (world : World) (hsound : Sound world) :
      Permitted (step maxUploadBytes) LosesNothing world run ↔
        Permitted (step maxUploadBytes) Reliable world run := by
    induction run generalizing world with
    | nil => exact Iff.rfl
    | cons operation rest ih =>
      unfold Permitted
      rw [losesNothing_iff_reliable hsound operation]
      exact and_congr_right fun hreliable ↦ ih _ (sound_step hsound maxUploadBytes hreliable)
  exact hrun _ (sound_start stateFile exists')

/-- A message of a chat. -/
def sampleReference : TelegramObjectRef := ⟨-100, 7, "file", "unique", 3⟩

def sampleStateFile : Objects := Function.update (fun _ ↦ none) "h" (some sampleReference)

def refusedDelete : Operation :=
  .delete "h" ⟨.ok (), .envelope 429 false none (some "Too Many Requests"), false, .ok ()⟩

/-- A refused delete makes the provider forget the object, and a second one succeeds. -/
theorem refused_delete_forgets :
    ¬ Permitted (step 100) LosesNothing (.start sampleStateFile fun _ ↦ true) [refusedDelete] ∧
    ([refusedDelete].foldl (step 100) (.start sampleStateFile fun _ ↦ true)).remaining "h" =
      some sampleReference ∧
    (delete "h" ⟨.ok (), .failed .invalidHash, false, .ok ()⟩
      ([refusedDelete].foldl (step 100) (.start sampleStateFile fun _ ↦ true))).1 = .ok () := by
  have hremaining : ([refusedDelete].foldl (step 100)
      (.start sampleStateFile fun _ ↦ true)).remaining "h" = some sampleReference := rfl
  refine ⟨fun h ↦ ?_, hremaining, rfl⟩
  obtain ⟨⟨hfailed, -⟩, -⟩ := h
  have henrolled := (hfailed _ sampleReference rfl hremaining).1
  exact some_ne_none _ (henrolled.symm.trans rfl)

end GameLauncher.Storage.Telegram
