import Colloquy.Json.Writer
import Colloquy.Proofs.Blocks
import Colloquy.Proofs.Breakout
import Colloquy.Proofs.Cases
import Colloquy.Proofs.Clashes
import Colloquy.Proofs.Fields
import Colloquy.Proofs.Independence
import Colloquy.Proofs.Membership
import Colloquy.Proofs.Offers
import Colloquy.Proofs.Options
import Colloquy.Proofs.Passages
import Colloquy.Proofs.Pending
import Colloquy.Proofs.Requirements
import Colloquy.Proofs.Scope
import Colloquy.Proofs.Starting
import Colloquy.Proofs.Timeouts
import Colloquy.Proofs.Updates
import Colloquy.Proofs.Voices
import Colloquy.Proofs.Wildcards
import Colloquy.Version
