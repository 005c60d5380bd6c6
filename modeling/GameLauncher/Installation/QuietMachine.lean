import GameLauncher.Foundation.Codec
import GameLauncher.Installation.Context

/-!
# A machine on which nothing fails

`journalCodec` writes a journal as bytes in place of its JSON text, field by field, so that what is
read back is what was written. `quietEnvironment` is an environment without faults, without
cancellations and with enough room, for any content of the chunk cache.
-/

set_option autoImplicit false

namespace GameLauncher.Installation

open Foundation Manifests

/-! ### Journals as bytes -/

/-- The two transactions, in one byte. -/
def operationCodec : Codec Operation :=
  Codec.tag (fun operation ↦ match operation with | .install => 0 | .update => 1)
    (fun byte ↦ if byte = 0 then some .install else some .update)
    (by intro operation; cases operation <;> rfl)

def journalStateCodec : Codec JournalState :=
  Codec.tag
    (fun state ↦ match state with
      | .started => 0 | .filesystemCommitted => 1 | .recoverableFailure => 2 | .committed => 3)
    (fun byte ↦ if byte = 0 then some .started else if byte = 1 then some .filesystemCommitted
      else if byte = 2 then some .recoverableFailure else some .committed)
    (by intro state; cases state <;> rfl)

/-- The fields of a journal, one after the other. -/
def journalCodec : Codec TransactionJournal :=
  Codec.convert
    (.pair .text (.pair operationCodec (.pair .text (.pair (.option .text) (.pair (.option .text)
      (.pair journalStateCodec (.pair (.list .text) (.pair (.list .text) (.list .text)))))))))
    (fun journal ↦ (journal.transactionId, journal.operation, journal.gameId, journal.oldBuildId,
      journal.newBuildId, journal.state, journal.backupRoot, journal.committedPaths,
      journal.removedPaths))
    (fun (transactionId, operation, gameId, oldBuildId, newBuildId, state, backupRoot,
        committedPaths, removedPaths) ↦
      { transactionId, operation, gameId, oldBuildId, newBuildId, state, backupRoot,
        committedPaths, removedPaths })
    fun _ ↦ rfl

/-! ### The environment -/

theorem asciiUnicode_upper (c d : Char) (h : id c = id d) :
    ManifestValidator.asciiUnicode.upper c = ManifestValidator.asciiUnicode.upper d :=
  congrArg _ h

def quietEnvironment (fold : Char → Char) (unicode : Unicode)
    (hupper : ∀ c d, fold c = fold d → unicode.upper c = unicode.upper d)
    (computeHash : Bytes → Text) (readCache : Text → Option Bytes)
    (decompress : Bytes → Option Bytes) : Environment fold where
  unicode := unicode
  upper_of_fold := hupper
  fault := fun _ ↦ none
  databaseFault := fun _ ↦ false
  canceled := fun _ ↦ false
  readCache := fun _ ↦ readCache
  decompress := decompress
  computeHash := computeHash
  availableSpace := none
  encode := journalCodec.encode
  decode := fun bytes ↦ (journalCodec.decode bytes).map Prod.fst
  decode_encode := by
    intro journal
    have hdecode := journalCodec.decode_encode journal []
    rw [List.append_nil] at hdecode
    rw [hdecode]
    rfl
  order := fun _ paths ↦ paths
  order_perm := fun _ _ ↦ .refl _

end GameLauncher.Installation
