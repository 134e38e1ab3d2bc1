import WatchWallet.Config.App
import WatchWallet.Explorer.Served
import WatchWallet.Proofs.Json.Lossless
import WatchWallet.Trust
import WatchWallet.Utxo.Format

/-!
# Json — Records

The records of a wallet, those that an explorer serves and the configurations are lossless in JSON: each
is put together from lossless members with names of their own.  So what is read from a text is read again
from the text that it is written as (`readsBack_records`), and a configuration that was accepted is
accepted again.
-/

namespace WatchWallet

open Json (Members)
open Json.Format

/-! ### Records of the chain -/

theorem Block.lossless_json : Block.json.Lossless :=
  Members.lossless_format
    ⟨lossless_text, lossless_uint32, lossless_instant, trivial⟩ (by decide) fun _ => rfl

theorem Input.lossless_json : Input.json.Lossless :=
  Members.lossless_format
    ⟨lossless_uint64, lossless_amount.option neverNull_amount, lossless_text.option neverNull_text,
      lossless_uint32.option neverNull_uint32, lossless_text.option neverNull_text,
      lossless_text.option neverNull_text, lossless_text.option neverNull_text, lossless_uint32,
      trivial⟩ (by decide) fun _ => rfl

theorem Output.lossless_json : Output.json.Lossless :=
  Members.lossless_format
    ⟨lossless_uint64, lossless_text, lossless_amount, lossless_text.option neverNull_text,
      lossless_text, lossless_text, trivial⟩ (by decide) fun _ => rfl

theorem Transaction.lossless_json : Transaction.json.Lossless :=
  Members.lossless_format
    ⟨lossless_uint32, lossless_text, lossless_instant, lossless_uint64,
      Block.lossless_json.option Members.neverNull_format, Input.lossless_json.list,
      Output.lossless_json.list, lossless_amount.option neverNull_amount, lossless_uint64, trivial⟩
    (by decide) fun _ => rfl

theorem FilledBlock.lossless_json : FilledBlock.json.Lossless :=
  Members.lossless_format
    ⟨Block.lossless_json, Transaction.lossless_json.list, trivial⟩ (by decide) fun _ => rfl

theorem Utxo.Key.lossless_json : Utxo.Key.json.Lossless :=
  Members.lossless_format
    ⟨lossless_text, lossless_uint32, trivial⟩ (by decide) fun _ => rfl

theorem Utxo.Value.lossless_json : Utxo.Value.json.Lossless :=
  Members.lossless_format
    ⟨lossless_amount, lossless_text, trivial⟩ (by decide) fun _ => rfl

theorem TrustLevel.lossless_json : TrustLevel.json.Lossless :=
  lossless_variants fun level => by cases level <;> decide

/-! ### What an explorer serves -/

theorem ServedBlock.lossless_json : ServedBlock.json.Lossless :=
  Members.lossless_format
    ⟨lossless_text, lossless_uint32, lossless_instant, trivial⟩ (by decide) fun _ => rfl

theorem ServedInput.lossless_json : ServedInput.json.Lossless :=
  Members.lossless_format
    ⟨lossless_uint64, lossless_amount.option neverNull_amount, lossless_text.option neverNull_text,
      lossless_uint32.option neverNull_uint32, lossless_text.option neverNull_text,
      lossless_text.option neverNull_text, lossless_text.option neverNull_text, lossless_uint32,
      trivial⟩ (by decide) fun _ => rfl

theorem ServedOutput.lossless_json : ServedOutput.json.Lossless :=
  Members.lossless_format
    ⟨lossless_uint64, lossless_amount, lossless_text.option neverNull_text, lossless_text, trivial⟩
    (by decide) fun _ => rfl

theorem ServedTransaction.lossless_json : ServedTransaction.json.Lossless :=
  Members.lossless_format
    ⟨lossless_text, lossless_instant, lossless_uint64,
      ServedBlock.lossless_json.option Members.neverNull_format, ServedInput.lossless_json.list,
      ServedOutput.lossless_json.list, lossless_amount.option neverNull_amount, lossless_uint64,
      trivial⟩ (by decide) fun _ => rfl

theorem ServedAnswer.lossless_json : ServedAnswer.json.Lossless :=
  Members.lossless_format
    ⟨lossless_bool, ServedTransaction.lossless_json.list, trivial⟩ (by decide) fun _ => rfl

/-! ### Configurations -/

theorem SyncConfig.lossless_json : SyncConfig.json.Lossless :=
  Members.lossless_format
    ⟨lossless_uint32, lossless_uint32, lossless_uint32, lossless_uint32, lossless_text, trivial⟩
    (by decide) fun _ => rfl

theorem AppConfig.lossless_json : AppConfig.json.Lossless :=
  Members.lossless_format
    ⟨lossless_text, lossless_text, lossless_uint64, lossless_path, lossless_text.list,
      lossless_text.list, lossless_uint32, SyncConfig.lossless_json, trivial⟩
    (by decide) fun _ => rfl

/-- A configuration that a text was accepted as is accepted from its own text. -/
theorem AppConfig.parse_encode {s : String} {c : AppConfig} (h : parse s = .ok c) :
    parse (json.encode c) = .ok c := by
  have hvalid : c.sync.validate = .ok () := by
    unfold parse at h
    rcases hread : json.decode s with e | d <;> rw [hread] at h
    · cases h
    · dsimp only [Except.mapError, bind, Except.bind] at h
      rcases hsync : d.sync.validate with e | u <;> rw [hsync] at h <;> cases h
      exact hsync
  unfold parse
  rw [lossless_json.decode_encode]
  dsimp only [Except.mapError, bind, Except.bind]
  rw [hvalid]
  rfl

/-! ### All of them -/

/-- **Every record is read back from its JSON text**, whatever its texts, amounts, moments and absent
members, and what is read from any text that is accepted is read again from its own text.  A configuration
stays accepted. -/
theorem readsBack_records :
    amount.ReadsBack ∧
    Block.json.ReadsBack ∧ Input.json.ReadsBack ∧ Output.json.ReadsBack ∧
    Transaction.json.ReadsBack ∧ FilledBlock.json.ReadsBack ∧
    Utxo.Key.json.ReadsBack ∧ Utxo.Value.json.ReadsBack ∧
    TrustLevel.json.ReadsBack ∧ Checkpoint.json.ReadsBack ∧ SyncConfig.json.ReadsBack ∧
    ServedBlock.json.ReadsBack ∧ ServedInput.json.ReadsBack ∧ ServedOutput.json.ReadsBack ∧
    ServedTransaction.json.ReadsBack ∧ ServedAnswer.json.ReadsBack ∧
    AppConfig.json.ReadsBack ∧
    ∀ {s c}, AppConfig.parse s = .ok c → AppConfig.parse (AppConfig.json.encode c) = .ok c :=
  ⟨lossless_amount.readsBack,
    Block.lossless_json.readsBack, Input.lossless_json.readsBack, Output.lossless_json.readsBack,
    Transaction.lossless_json.readsBack, FilledBlock.lossless_json.readsBack,
    Utxo.Key.lossless_json.readsBack, Utxo.Value.lossless_json.readsBack,
    TrustLevel.lossless_json.readsBack, Checkpoint.lossless_json.readsBack,
    SyncConfig.lossless_json.readsBack,
    ServedBlock.lossless_json.readsBack, ServedInput.lossless_json.readsBack,
    ServedOutput.lossless_json.readsBack, ServedTransaction.lossless_json.readsBack,
    ServedAnswer.lossless_json.readsBack,
    AppConfig.lossless_json.readsBack, AppConfig.parse_encode⟩

/-- An input whose amount is a number and whose address has escapes, and a configuration without the
members that have defaults: both are read again from what they are written as. -/
theorem readsBack_records_defaults :
    let inputText := "\x7b\"index\": 0, \"value\": 226, \"previous_output_index\": 1, " ++
      "\"address\": \"\\u0061\\\"\\n\", \"sequence\": 4294967295\x7d"
    let input : Input :=
      { value := some (.ofUInt64 226), previousIndex := some 1, address := some "a\"\n" }
    let configText := "\x7b\"explorerUrl\": \"u\", \"currency\": \"btc\", \"dataDir\": \"d\", " ++
      "\"receiveAddresses\": [\"a0\"], \"synchronizer\": [6, 20, 20, 10, \"g\"]\x7d"
    let config : AppConfig := ⟨"u", "btc", 30, "d", ["a0"], [], 8, ⟨6, 20, 20, 10, "g"⟩⟩
    Input.json.decode inputText = .ok input ∧
      Input.json.decode (Input.json.encode input) = .ok input ∧
      AppConfig.parse configText = .ok config ∧
      AppConfig.parse (AppConfig.json.encode config) = .ok config := by
  intro inputText input configText config
  obtain ⟨-, -, hinput, -, -, -, -, -, -, -, -, -, -, -, -, -, -, hconfig⟩ := readsBack_records
  have hread : Input.json.decode inputText = .ok input := by decide +kernel
  have haccepted : AppConfig.parse configText = .ok config := by decide +kernel
  exact ⟨hread, hinput.decode_again hread, haccepted, hconfig haccepted⟩

end WatchWallet
